import BlockFeed.Native.FlowForwarder
import BlockFeed.Spec.FlowHeights
import BlockFeed.Spec.ForwarderRefinement

/-!
# The Flow forwarder refines the forwarder of the feed

A `FlowBlockSource` asks for the tip of the chain if it is not given a height, loses subscriptions,
and fetches blocks by ID and by height. Still it posts one height after the other (`flowPosts`), so
that every run with a Flow forwarder is a run of `Feed` (`flowFeed_refines`).

While the source waits for the tip, it stands for every forwarder that starts at some tip.
-/

namespace BlockFeed.Spec

open BlockFeed.Native Transition

section FlowRefinement

variable {ε β η : Type}

/-- The source has nothing left to do. -/
def SourceEnded (source : FlowBlockSource ε β) : Prop :=
  source.phase = .returned ∨ source.phase = .panicked

/-- A source that waits for the tip, that has ended, or whose next block is at its height. -/
def SourceOk (source : FlowBlockSource ε β) : Prop :=
  source.phase = .getLatestBlock ∨ SourceEnded source ∨ ∃ height, FlowInv height source []

/-- The forwarders of `Feed` that a source stands for. -/
def SourceStands (source : FlowBlockSource ε β) (f : Forwarder) : Prop :=
  match source.phase with
  -- the tip is not known yet
  | .getLatestBlock => ∃ tip, f = .subscribed tip
  -- `main` is about to end
  | .returned | .panicked => f = .stopped
  | _ => ∃ height, source.currHeight = some height ∧ f = .subscribed height

/-! ### The forwarders that a source stands for -/

/-- A source at a height stands for that height, unless it has ended. -/
theorem stands_of_inv {source : FlowBlockSource ε β} {height : UInt64}
    (h : FlowInv height source []) {f : Forwarder} (hf : SourceStands source f) :
    f = .subscribed height ∧ ¬ SourceEnded source ∨ f = .stopped ∧ SourceEnded source := by
  have hcurr : source.currHeight = some height := h.currHeight
  have hphase := h.phase
  simp only [SourceStands] at hf
  split at hf
  · next hp =>
    rw [hp] at hphase
    exact hphase.elim
  · next hp => exact .inr ⟨hf, .inl hp⟩
  · next hp => exact .inr ⟨hf, .inr hp⟩
  · next hreturned hpanicked =>
    obtain ⟨height', hheight', rfl⟩ := hf
    rw [hcurr, Option.some.injEq] at hheight'
    exact .inl ⟨hheight' ▸ rfl, fun hended => hended.elim hreturned hpanicked⟩

theorem stands_subscribed {source : FlowBlockSource ε β} {height : UInt64}
    (h : FlowInv height source []) (hended : ¬ SourceEnded source) :
    SourceStands source (.subscribed height) := by
  have hcurr : source.currHeight = some height := h.currHeight
  simp only [SourceStands]
  split
  · exact ⟨height, rfl⟩
  · next hp => exact absurd (.inl hp) hended
  · next hp => exact absurd (.inr hp) hended
  · exact ⟨height, hcurr, rfl⟩

theorem stands_stopped_iff {source : FlowBlockSource ε β} (h : SourceEnded source)
    {f : Forwarder} : SourceStands source f ↔ f = .stopped := by
  rcases h with hp | hp
  · simp only [SourceStands, hp]
  · simp only [SourceStands, hp]

theorem exists_stands {source : FlowBlockSource ε β} (h : SourceOk source) :
    ∃ f, SourceStands source f := by
  rcases h with hp | hended | ⟨height, hinv⟩
  · refine ⟨.subscribed 0, ?_⟩
    simp only [SourceStands, hp]
    exact ⟨0, rfl⟩
  · exact ⟨_, (stands_stopped_iff hended).2 rfl⟩
  · by_cases hended : SourceEnded source
    · exact ⟨_, (stands_stopped_iff hended).2 rfl⟩
    · exact ⟨_, stands_subscribed hinv hended⟩

/-! ### Steps of the source -/

/-- What was handled before does not matter for what comes next. -/
theorem FlowInv.forget {source : FlowBlockSource ε β} {c : UInt64} {log : List FlowOutput}
    (h : FlowInv c source log) : FlowInv (nextHeight c log) source [] where
  consecutive := .nil _
  currHeight := h.currHeight
  phase := h.phase

/-- A source that has ended takes no step. -/
theorem not_ended_of_step {stringifyBlock : FlowBlock η → Option β}
    {source source' : FlowBlockSource ε β} {action : FlowAction ε η}
    (h : source.step stringifyBlock action = some source') : ¬ SourceEnded source := by
  rintro (hp | hp)
  · cases action <;> simp [FlowBlockSource.step, hp] at h
  · cases action <;> simp [FlowBlockSource.step, hp] at h

/-- A step of the source that is not the handler's stays at its height. -/
theorem flowInv_quiet {stringifyBlock : FlowBlock η → Option β}
    {source source' : FlowBlockSource ε β} {action : FlowAction ε η} {height : UInt64}
    (h : FlowInv height source []) (hstep : source.step stringifyBlock action = some source')
    (hdelivers : Delivers source action) (hquiet : ∀ ok, action ≠ .handled ok) :
    FlowInv height source' [] := by
  have hnext := (h.step hstep hdelivers).forget
  rw [List.nil_append] at hnext
  -- nothing was handled
  have hnone : handledOf (source.emit action) = [] := by
    unfold FlowBlockSource.emit FlowBlockSource.asked handledOf
    split
    · cases source.currHeight <;> rfl
    · cases source.currHeight <;> rfl
    · exact absurd rfl (hquiet true)
    · rfl
  rwa [nextHeight, hnone] at hnext

/-- The block that the handler runs for is the one at the height. -/
theorem height_of_handling {source : FlowBlockSource ε β} {height : UInt64}
    {block : BlockDocument β} (h : FlowInv height source [])
    (hblock : source.handling = some block) : block.height = height := by
  have hphase := h.phase
  unfold FlowBlockSource.handling at hblock
  split at hblock
  · next hp =>
    cases hblock
    rw [hp] at hphase
    exact hphase.2.1
  · next hp =>
    cases hblock
    rw [hp] at hphase
    exact hphase
  · cases hblock

/-- After the handler the next height is the one above. -/
theorem flowInv_handled {stringifyBlock : FlowBlock η → Option β}
    {source source' : FlowBlockSource ε β} {height : UInt64} {block : BlockDocument β}
    (h : FlowInv height source []) (hblock : source.handling = some block)
    (hstep : source.step stringifyBlock (.handled true : FlowAction ε η) = some source') :
    FlowInv (height + 1) source' [] := by
  have hnext := (h.step hstep trivial).forget
  have hemit : source.emit (.handled true : FlowAction ε η) = [.handled height] := by
    have hheight := height_of_handling h hblock
    unfold FlowBlockSource.handling at hblock
    split at hblock
    · next hp =>
      cases hblock
      simp only [FlowBlockSource.emit, hp, hheight]
    · next hp =>
      cases hblock
      simp only [FlowBlockSource.emit, hp, hheight]
    · cases hblock
  rw [List.nil_append, hemit] at hnext
  exact hnext

/-- An error of the handler ends `Subscribe`. -/
theorem ended_of_failed {stringifyBlock : FlowBlock η → Option β}
    {source source' : FlowBlockSource ε β}
    (hstep : source.step stringifyBlock (.handled false : FlowAction ε η) = some source') :
    SourceEnded source' := by
  simp only [FlowBlockSource.step] at hstep
  split at hstep
  · cases hstep
    exact .inl rfl
  · cases hstep
    exact .inl rfl
  · cases hstep

/-- A source in its handler has a height. -/
theorem inv_of_handling {source : FlowBlockSource ε β} {block : BlockDocument β}
    (h : SourceOk source) (hblock : source.handling = some block) :
    ∃ height, FlowInv height source [] := by
  rcases h with hp | (hp | hp) | hinv
  · simp [FlowBlockSource.handling, hp] at hblock
  · simp [FlowBlockSource.handling, hp] at hblock
  · simp [FlowBlockSource.handling, hp] at hblock
  · exact hinv

/-- The tip decides the height, or `Subscribe` ends without it. -/
theorem getLatestBlock_cases {stringifyBlock : FlowBlock η → Option β}
    {source source' : FlowBlockSource ε β} {action : FlowAction ε η}
    (hp : source.phase = .getLatestBlock)
    (hstep : source.step stringifyBlock action = some source') :
    (∃ tip, FlowInv tip source' [] ∧ ¬ SourceEnded source') ∨ SourceEnded source' := by
  cases action with
  | getLatestBlock result =>
    simp only [FlowBlockSource.step, hp] at hstep
    cases result with
    | none =>
      cases hstep
      exact .inr (.inl rfl)
    | some block =>
      cases hstep
      refine .inl ⟨block.height, ⟨.nil _, rfl, trivial⟩, ?_⟩
      rintro (h | h) <;> cases h
  | _ => simp [FlowBlockSource.step, hp] at hstep

/-- The handler runs while `handling` has a block. -/
theorem not_handled_of_handling {stringifyBlock : FlowBlock η → Option β}
    {source source' : FlowBlockSource ε β} {action : FlowAction ε η} (h : source.handling = none)
    (hstep : source.step stringifyBlock action = some source') (ok : Bool) :
    action ≠ .handled ok := by
  rintro rfl
  unfold FlowBlockSource.handling at h
  simp only [FlowBlockSource.step] at hstep
  split at hstep
  · next hp => simp [hp] at h
  · next hp => simp [hp] at h
  · cases hstep

/-- A source that is not started at a height waits for the tip. -/
private theorem subscribe_none_stands {opts : FlowBlockSourceOpts} {f : Forwarder}
    (h : SourceStands (.new none opts : FlowBlockSource ε β) f) : ∃ tip, f = .subscribed tip :=
  h

private theorem subscribe_some_stands {opts : FlowBlockSourceOpts} {height : UInt64} {f : Forwarder}
    (h : SourceStands (.new (some height) opts : FlowBlockSource ε β) f) :
    f = .subscribed height := by
  obtain ⟨height', hheight', rfl⟩ : ∃ height', some height = some height' ∧
    f = .subscribed height' := h
  cases hheight'
  rfl

/-- A Flow source posts one height after the other. -/
def flowPosts (opts : FlowBlockSourceOpts) (stringifyBlock : FlowBlock η → Option β) :
    Posts (flowBlockSource opts stringifyBlock : BlockSource (FlowBlockSource ε β) _ _)
      Delivers where
  Ok := SourceOk
  Stands := SourceStands
  stands := exists_stands
  ok_subscribe := by
    intro startHeight
    cases startHeight with
    | none => exact .inl rfl
    | some height => exact .inr (.inr ⟨height, .init _ _⟩)
  subscribe_some := subscribe_some_stands
  subscribe_none := subscribe_none_stands
  quiet := by
    intro source source' action hok hhandling hdelivers hstep
    have hquiet : ∀ ok, action ≠ .handled ok := not_handled_of_handling hhandling hstep
    rcases hok with hp | hended | ⟨height, hinv⟩
    · -- the tip comes, or it does not
      rcases getLatestBlock_cases hp hstep with ⟨tip, hinv, hended⟩ | hended
      · refine ⟨.inr (.inr ⟨tip, hinv⟩), fun f hf => ?_⟩
        rcases stands_of_inv hinv hf with ⟨rfl, -⟩ | ⟨-, h'⟩
        · left
          simp only [SourceStands, hp]
          exact ⟨tip, rfl⟩
        · exact absurd h' hended
      · exact ⟨.inr (.inl hended), fun f hf => .inr ((stands_stopped_iff hended).1 hf)⟩
    · exact absurd hended (not_ended_of_step hstep)
    · have hinv' := flowInv_quiet hinv hstep hdelivers hquiet
      refine ⟨.inr (.inr ⟨height, hinv'⟩), fun f hf => ?_⟩
      rcases stands_of_inv hinv' hf with ⟨rfl, -⟩ | ⟨rfl, -⟩
      · exact .inl (stands_subscribed hinv (not_ended_of_step hstep))
      · exact .inr rfl
  handled := by
    intro source source' block hok hblock hstep
    replace hstep : source.step stringifyBlock (.handled true) = some source' := hstep
    obtain ⟨height, hinv⟩ := inv_of_handling hok hblock
    have hinv' := flowInv_handled hinv hblock hstep
    rw [height_of_handling hinv hblock]
    refine ⟨.inr (.inr ⟨_, hinv'⟩), stands_subscribed hinv (not_ended_of_step hstep), ?_⟩
    intro f hf
    exact (stands_of_inv hinv' hf).imp And.left And.left
  failed := by
    intro source source' block hok hblock hstep
    replace hstep : source.step stringifyBlock (.handled false) = some source' := hstep
    obtain ⟨height, hinv⟩ := inv_of_handling hok hblock
    have hended := ended_of_failed hstep
    rw [height_of_handling hinv hblock]
    exact ⟨.inr (.inl hended), stands_subscribed hinv (not_ended_of_step hstep), fun f hf =>
      (stands_stopped_iff hended).1 hf⟩

variable {δ κ ι T : Type} [DecidableEq δ] [DecidableEq κ] [DecidableEq ι] [LinearOrder T]
  [JobText ι T] [LinearOrder (BlockDocument β)]

/-- Every run of a feed with a Flow forwarder is a run of `Feed`, with the same stream, router,
    stores and shards at its end, and the same calls of the other processes in the same order. -/
theorem flowFeed_refines {batchSize : Nat} {webhookStreams : List δ} {opts : FlowBlockSourceOpts}
    {stringifyBlock : FlowBlock η → Option β}
    {as : List (ForwarderFeedAction δ κ ι (FlowAction ε η) β)}
    {s : ForwarderFeed δ κ ι T (FlowBlockSource ε β) β}
    (hrun : run (ForwarderFeed.step (flowBlockSource opts stringifyBlock) batchSize webhookStreams)
      .init as = some s)
    (hdelivers : Meets
      (ForwarderFeed.step (flowBlockSource opts stringifyBlock) batchSize webhookStreams)
      (SourceCalls Delivers) (.init : ForwarderFeed δ κ ι T (FlowBlockSource ε β) β) as) :
    ∃ (bs : List (FeedAction δ κ ι β)) (f : Forwarder),
      run (Feed.step batchSize webhookStreams) .init bs = some { s.feed with forwarder := f } ∧
        bs.filter (fun b => ¬ ForwarderFeed.isForwarder b) =
          as.filterMap ForwarderFeed.others :=
  forwarderFeed_refines (flowPosts opts stringifyBlock) hrun hdelivers

end FlowRefinement

/-- Nothing is stored, so the source asks for the tip, 7. Its block is posted, but the reply is
    lost, and `main` starts again. -/
def lostReply : List (ForwarderFeedAction Nat Nat Nat (FlowAction Nat Nat) Nat) :=
  [.readCache, .readWrapped, .source (.getLatestBlock (some ⟨7, 5⟩)), .source (.subscribed true),
    .source (.data (some ⟨7, 70⟩) false), .source (.getBlock (.returned (some ⟨7, 5⟩))),
    .xAdd .executedThenFailed, .crash]

/-- In `Feed` the forwarder posts block 7 and crashes. -/
theorem flowFeed_refines_lostReply :
    ∃ (bs : List (FeedAction Nat Nat Nat Nat)) (f : Forwarder),
      run (Feed.step 1 [0]) (.init : Feed Nat Nat Nat TupleText Nat) bs =
          some { Feed.init with blockStream := .xadd .empty ⟨5, 7⟩, forwarder := f } ∧
        bs.filter (fun b => ¬ ForwarderFeed.isForwarder b) = [] := by
  have hrun : run (ForwarderFeed.step
      (flowBlockSource ⟨none, none⟩ fun b : FlowBlock Nat => some b.rest) 1 [0])
      (.init : ForwarderFeed Nat Nat Nat TupleText (FlowBlockSource Nat Nat) Nat) lostReply =
        some ⟨.readCache, { Feed.init with blockStream := .xadd .empty ⟨5, 7⟩ }⟩ := rfl
  exact flowFeed_refines hrun (by decide)

end BlockFeed.Spec
