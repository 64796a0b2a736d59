import BlockFeed.Spec.RelayNonEmpty

/-!
# What a forwarder posts

A forwarder that restarts goes back to the latest stored height and posts again what the router
has not handled yet, so heights are neither ascending nor distinct. What is left of their order is
`Follows`: a height lies between the heights posted before it or one above the largest.

That is enough for the router, which puts the messages in the order of their IDs: the heights that
were put have no gap, `ForwardInv.contiguous_put`, and a height that is put for the first time is
above all others, `ForwardInv.new_above`.
-/

namespace BlockFeed.Spec

open BlockFeed.Native Redis Transition BlockRouter

section Posted

variable {δ β : Type}

/-- A message of this height has been posted. -/
def Posted (log : List (Event δ β)) (height : UInt64) : Prop :=
  ∃ id msg, .posted id msg ∈ log ∧ msg.height = height

/-- A message of this height has been posted with a smaller ID. -/
def PostedBefore (log : List (Event δ β)) (id : Nat) (height : UInt64) : Prop :=
  ∃ id' msg, .posted id' msg ∈ log ∧ id' < id ∧ msg.height = height

theorem PostedBefore.mono {log : List (Event δ β)} {id id' : Nat} {height : UInt64}
    (h : PostedBefore log id height) (hle : id ≤ id') : PostedBefore log id' height := by
  obtain ⟨i, msg, hmem, hlt, hheight⟩ := h
  exact ⟨i, msg, hmem, by omega, hheight⟩

/-- Each message follows the earlier ones. -/
def InOrder (log : List (Event δ β)) : Prop :=
  ∀ id msg, .posted id msg ∈ log → Follows (PostedBefore log id) msg.height

/-- No ID is used twice. -/
def UniqueIds (log : List (Event δ β)) : Prop :=
  ∀ id msg msg', .posted id msg ∈ log → .posted id msg' ∈ log → msg = msg'

/-- Up to any ID the heights have no gap. -/
theorem contiguous_postedBefore {log : List (Event δ β)} (h : InOrder log)
    (hunique : UniqueIds log) (id : Nat) : Contiguous (PostedBefore log id) := by
  induction id with
  | zero =>
    intro a b n ha
    obtain ⟨i, msg, -, hlt, -⟩ := ha
    omega
  | succ id ih =>
    by_cases hposted : ∃ msg, .posted id msg ∈ log
    · obtain ⟨msg, hmsg⟩ := hposted
      refine (ih.insert (h id msg hmsg)).congr fun x => ?_
      constructor
      · intro hx
        cases hx with
        | inl hx => exact hx.mono (Nat.le_succ id)
        | inr hx => exact ⟨id, msg, hmsg, Nat.lt_succ_self id, hx.symm⟩
      · intro hx
        obtain ⟨i, msg', hmem, hlt, hheight⟩ := hx
        by_cases hi : i = id
        · subst hi
          rw [hunique i msg' msg hmem hmsg] at hheight
          exact .inr hheight.symm
        · exact .inl ⟨i, msg', hmem, by omega, hheight⟩
    · -- nothing has this ID
      refine ih.congr fun x => ⟨fun hx => hx.mono (Nat.le_succ id), fun hx => ?_⟩
      obtain ⟨i, msg, hmem, hlt, hheight⟩ := hx
      have hne : i ≠ id := fun heq => hposted ⟨msg, heq ▸ hmem⟩
      exact ⟨i, msg, hmem, by omega, hheight⟩

/-- Later heights are at or above an earlier one. -/
theorem exists_le_of_postedBefore {log : List (Event δ β)} (h : InOrder log) {id : Nat}
    (hsome : ∃ y, PostedBefore log id y) (id' : Nat) (x : UInt64) (hx : PostedBefore log id' x) :
    ∃ a, PostedBefore log id a ∧ a.toNat ≤ x.toNat := by
  induction id' using Nat.strongRecOn generalizing x with
  | ind id' ih =>
    obtain ⟨i, msg, hmem, hlt, rfl⟩ := hx
    by_cases hi : i < id
    · exact ⟨_, ⟨i, msg, hmem, hi, rfl⟩, Nat.le_refl _⟩
    · cases h i msg hmem with
      | inl hnone =>
        obtain ⟨y, hy⟩ := hsome
        exact absurd (hy.mono (Nat.not_lt.1 hi)) (hnone y)
      | inr hbetween =>
        obtain ⟨lo, -, hlo, -, hle, -⟩ := hbetween
        obtain ⟨a, ha, hale⟩ := ih i hlt lo hlo
        exact ⟨a, ha, by omega⟩

/-- A height posted for the first time is above all earlier ones. -/
theorem postedBefore_of_le {log : List (Event δ β)} (h : InOrder log) (hunique : UniqueIds log)
    {id id' : Nat} {x y : UInt64} (hx : PostedBefore log id' x) (hy : PostedBefore log id y)
    (hle : x.toNat ≤ y.toNat) : PostedBefore log id x := by
  obtain ⟨a, ha, hale⟩ := exists_le_of_postedBefore h ⟨y, hy⟩ id' x hx
  exact contiguous_postedBefore h hunique id a y x ha hy hale hle

end Posted

/-! ## The forwarder and the router -/

section Feed

variable {δ κ ι T β : Type} [DecidableEq δ] [DecidableEq κ] [DecidableEq ι] [LinearOrder T]
  [JobText ι T] [LinearOrder (BlockDocument β)]

/-- The heights that are stored or still in the block stream. -/
def knownHeights (s : Feed δ κ ι T β) : List UInt64 :=
  s.blockStream.entries.map (fun e => e.2.height) ++ storedHeights s.stores.store

/-- The block that the forwarder delivers is the one the chain has at this height. -/
def OfChain (chain : UInt64 → β) (top : Nat) (block : β) : Forwarder → Prop
  | .subscribed currHeight => block = chain currHeight ∧ currHeight.toNat ≤ top
  | _ => True

/-- Only the forwarder posts, it posts the chain up to some height, and when it starts where the
    chain is, because nothing is stored, it leaves out no height. -/
def ForwardsChain (chain : UInt64 → β) (top : Nat) (s : Feed δ κ ι T β) :
    FeedAction δ κ ι β → Prop
  | .forward block => OfChain chain top block s.forwarder
  | .forwarderReadWrapped tip =>
    s.stores.store.wrappedStore.rows = [] → 1 ≤ tip ∧ Follows (· ∈ knownHeights s) tip
  | .xAdd _ => False
  | _ => True

instance [DecidableEq β] (chain : UInt64 → β) (top : Nat) (block : β) (forwarder : Forwarder) :
    Decidable (OfChain chain top block forwarder) :=
  match forwarder with
  | .subscribed currHeight =>
    inferInstanceAs (Decidable (block = chain currHeight ∧ currHeight.toNat ≤ top))
  | .stopped | .readWrapped => .isTrue trivial

instance [DecidableEq β] (chain : UInt64 → β) (top : Nat) (s : Feed δ κ ι T β)
    (action : FeedAction δ κ ι β) : Decidable (ForwardsChain chain top s action) :=
  match action with
  | .forward block => inferInstanceAs (Decidable (OfChain chain top block s.forwarder))
  | .forwarderReadWrapped tip =>
    inferInstanceAs (Decidable (s.stores.store.wrappedStore.rows = [] →
      1 ≤ tip ∧ Follows (· ∈ knownHeights s) tip))
  | .xAdd _ => .isFalse id
  | .forwarderReadCache | .forwarderCrash | .router _ | .flusher _ | .shard _ _
  | .consumerReadCache _ _ | .consumerReadWrapped _ _ => .isTrue trivial

/-- What the forwarder has posted and the router has put. -/
structure ForwardInv (chain : UInt64 → β) (top : Nat) (s : Feed δ κ ι T β)
    (log : List (Event δ β)) : Prop where
  inOrder : InOrder log
  genuine : ∀ id msg, .posted id msg ∈ log →
    msg.block = chain msg.height ∧ 1 ≤ msg.height.toNat ∧ msg.height.toNat ≤ top
  /-- what the forwarder delivers next -/
  next : ∀ height, s.forwarder = .subscribed height → 1 ≤ height.toNat ∧ Follows (Posted log) height
  /-- the router has put the messages up to some ID -/
  put : ∃ id ≤ s.blockStream.lastDelivered, ∀ x, PutAt log x ↔ PostedBefore log (id + 1) x
  payload : ∀ b ∈ blocksPut log, b.data = chain b.height

omit [DecidableEq δ] [DecidableEq κ] [DecidableEq ι] [JobText ι T] in
theorem forwardInv_init (chain : UInt64 → β) (top : Nat) :
    ForwardInv chain top (.init : Feed δ κ ι T β) [] where
  inOrder := by simp [InOrder]
  genuine := by simp
  next := by simp [Feed.init]
  put := by
    refine ⟨0, Nat.le_refl _, fun x => ?_⟩
    simp [PutAt, PostedBefore, blocksPut]
  payload := by simp [blocksPut]

section Put

variable {chain : UInt64 → β} {top : Nat} {webhookStreams : List δ} {s : Feed δ κ ι T β}
  {log : List (Event δ β)}

omit [DecidableEq δ] [DecidableEq κ] [DecidableEq ι] [JobText ι T] in
theorem ForwardInv.posted_of_put (h : ForwardInv chain top s log) {x : UInt64}
    (hx : PutAt log x) : Posted log x := by
  obtain ⟨id, -, hput⟩ := h.put
  obtain ⟨i, msg, hmem, -, hheight⟩ := (hput x).1 hx
  exact ⟨i, msg, hmem, hheight⟩

omit [DecidableEq δ] [DecidableEq κ] [DecidableEq ι] [JobText ι T] in
/-- The heights that were put have no gap. -/
theorem ForwardInv.contiguous_put (h : ForwardInv chain top s log)
    (hrouter : RouterInv webhookStreams s.blockStream s.router log) : Contiguous (PutAt log) := by
  obtain ⟨id, -, hput⟩ := h.put
  have hcont := contiguous_postedBefore h.inOrder hrouter.posted_unique (id + 1)
  exact hcont.congr fun x => (hput x).symm

omit [DecidableEq δ] [DecidableEq κ] [DecidableEq ι] [JobText ι T] in
theorem ForwardInv.bounded (h : ForwardInv chain top s log) {x : UInt64} (hx : PutAt log x) :
    1 ≤ x.toNat ∧ x.toNat ≤ top := by
  obtain ⟨id, msg, hmem, rfl⟩ := h.posted_of_put hx
  exact (h.genuine id msg hmem).2

omit [DecidableEq δ] [DecidableEq κ] [DecidableEq ι] [JobText ι T] in
/-- What is posted is in the block stream or stored. -/
theorem ForwardInv.posted_iff (h : ForwardInv chain top s log)
    (hrouter : RouterInv webhookStreams s.blockStream s.router log)
    (hstores : StoresReached s log) (x : UInt64) : Posted log x ↔ x ∈ knownHeights s := by
  unfold knownHeights
  rw [List.mem_append, List.mem_map, mem_storedHeights, ← putAt_iff hstores]
  constructor
  · intro hx
    obtain ⟨id, msg, hmem, rfl⟩ := hx
    cases hrouter.waiting id msg hmem with
    | inl hdone => exact .inr hdone.1
    | inr hwaiting => exact .inl ⟨(id, msg), hwaiting.1, rfl⟩
  · intro hx
    cases hx with
    | inl hentry =>
      obtain ⟨e, he, rfl⟩ := hentry
      exact ⟨e.1, e.2, hrouter.entries _ _ he, rfl⟩
    | inr hput => exact h.posted_of_put hput

end Put

/-- An action puts nothing, or it is the router's and puts the batch at hand. -/
theorem written_cases {batchSize : Nat} {webhookStreams : List δ} {s s' : Feed δ κ ι T β}
    {action : FeedAction δ κ ι β} (h : FeedStep batchSize webhookStreams s action s') :
    written (s.storeAction batchSize webhookStreams action).toList = [] ∨
      ∃ msgs isBacklogMsg, s.router.loop = .handler msgs isBacklogMsg ∧
        s.postOf action = none ∧ s'.blockStream = s.blockStream ∧
        written (s.storeAction batchSize webhookStreams action).toList = blocksOf msgs := by
  cases h with
  | router action blockStream router effect heffect hmove =>
    cases effect with
    | none =>
      left
      simp [Feed.storeAction, heffect, written]
    | some effect =>
      cases effect with
      | putBlocks blocks =>
        right
        generalize s.router = old at hmove
        cases hmove with
        | call msgs isBacklogMsg call _ _ next hstep =>
          cases hstep
          refine ⟨msgs, isBacklogMsg, rfl, rfl, rfl, ?_⟩
          simp [Feed.storeAction, heffect, written]
      | flush d height =>
        left
        simp [Feed.storeAction, heffect, written]
      | xAckDel msgIDs =>
        left
        simp [Feed.storeAction, heffect, written]
  | flusher action stores hput h =>
    left
    cases action with
    | putBlocks blocks => exact absurd rfl (hput blocks)
    | _ => rfl
  | shard action d a shard hanswered haction hpost heffect hstore h =>
    left
    rw [hstore]
    rfl
  | _ => exact .inl rfl

/-- The mark of the block stream never goes back. -/
theorem lastDelivered_le_feedStep {batchSize : Nat} {webhookStreams : List δ}
    {s s' : Feed δ κ ι T β} {action : FeedAction δ κ ι β}
    (h : FeedStep batchSize webhookStreams s action s') :
    s.blockStream.lastDelivered ≤ s'.blockStream.lastDelivered := by
  have hview := streamView_of_feedStep h
  generalize events batchSize webhookStreams s action = new at hview
  cases hview with
  | same _ hstream hrouter => rw [hstream]
  | posted _ msg hstream hrouter =>
    rw [hstream]
    exact Nat.le_refl _
  | router action effect hmove =>
    generalize s.router = old at hmove
    generalize s'.blockStream = stream at hmove ⊢
    generalize s'.router = new at hmove
    cases hmove with
    | crash => exact Nat.le_refl _
    | readBacklog cursorId call loop _ hread =>
      obtain ⟨rfl, -⟩ := readBacklog_cases hread
      exact Nat.le_refl _
    | readNew call loop _ hread =>
      obtain ⟨rfl, -, -⟩ := readNew_cases hread
      exact GroupStream.lastDelivered_le_xreadgroupNew s.blockStream () batchSize
    | call msgs isBacklogMsg call _ _ next hstep => cases hstep <;> exact Nat.le_refl _

omit [DecidableEq κ] [DecidableEq ι] [JobText ι T] in
/-- What an action posts. -/
theorem mem_events_posted {batchSize : Nat} {webhookStreams : List δ} {s : Feed δ κ ι T β}
    {action : FeedAction δ κ ι β} {id : Nat} {msg : BlockStreamMsgData β} :
    .posted id msg ∈ events batchSize webhookStreams s action ↔
      s.postOf action = some msg ∧ id = s.blockStream.lastId + 1 := by
  simp [events, eq_comm, and_comm]

omit [DecidableEq κ] [DecidableEq ι] [JobText ι T] in
/-- A new message comes after all others. -/
private theorem postedBefore_events {batchSize : Nat} {webhookStreams : List δ}
    {s : Feed δ κ ι T β} {log : List (Event δ β)} {action : FeedAction δ κ ι β} {id : Nat}
    (hid : id ≤ s.blockStream.lastId + 1) (x : UInt64) :
    PostedBefore (log ++ events batchSize webhookStreams s action) id x ↔
      PostedBefore log id x := by
  constructor
  · intro hx
    obtain ⟨i, msg, hmem, hlt, hheight⟩ := hx
    cases List.mem_append.1 hmem with
    | inl hold => exact ⟨i, msg, hold, hlt, hheight⟩
    | inr hnew =>
      have hi := (mem_events_posted.1 hnew).2
      omega
  · intro hx
    obtain ⟨i, msg, hmem, hlt, hheight⟩ := hx
    exact ⟨i, msg, List.mem_append_left _ hmem, hlt, hheight⟩

omit [DecidableEq κ] [DecidableEq ι] [JobText ι T] in
/-- Without a new message nothing else is posted. -/
private theorem posted_events {batchSize : Nat} {webhookStreams : List δ} {s : Feed δ κ ι T β}
    {log : List (Event δ β)} {action : FeedAction δ κ ι β} (hpost : s.postOf action = none)
    (x : UInt64) : Posted log x ↔ Posted (log ++ events batchSize webhookStreams s action) x := by
  constructor
  · intro hx
    obtain ⟨id, msg, hmem, hheight⟩ := hx
    exact ⟨id, msg, List.mem_append_left _ hmem, hheight⟩
  · intro hx
    obtain ⟨id, msg, hmem, hheight⟩ := hx
    cases List.mem_append.1 hmem with
    | inl hold => exact ⟨id, msg, hold, hheight⟩
    | inr hnew =>
      have hsome := (mem_events_posted.1 hnew).1
      rw [hpost] at hsome
      cases hsome

omit [DecidableEq δ] [DecidableEq κ] [DecidableEq ι] [JobText ι T] in
/-- What is posted is the block that the forwarder delivers next. -/
private theorem post_cases {chain : UInt64 → β} {top : Nat} {s : Feed δ κ ι T β}
    {action : FeedAction δ κ ι β} (hfwd : ForwardsChain chain top s action)
    {msg : BlockStreamMsgData β} (hpost : s.postOf action = some msg) :
    s.forwarder = .subscribed msg.height ∧ msg.block = chain msg.height ∧
      msg.height.toNat ≤ top := by
  cases action with
  | forward block =>
    cases hforwarder : s.forwarder with
    | subscribed currHeight =>
      simp only [Feed.postOf, hforwarder, Option.some.injEq] at hpost
      simp only [ForwardsChain, hforwarder, OfChain] at hfwd
      subst hpost
      exact ⟨rfl, hfwd⟩
    | _ => simp [Feed.postOf, hforwarder] at hpost
  | xAdd msg' => exact hfwd.elim
  | _ => cases hpost

section Step

variable {chain : UInt64 → β} {top : Nat} {batchSize : Nat} {webhookStreams : List δ}
  {s s' : Feed δ κ ι T β} {log : List (Event δ β)} {action : FeedAction δ κ ι β}

/-- The batch that the router puts are the messages that it was given and has not put before. -/
private theorem ForwardInv.put_step (h : ForwardInv chain top s log)
    (hrouter : RouterInv webhookStreams s.blockStream s.router log)
    (hloop : LoopInv s.blockStream () batchSize s.router.loop)
    (hfeed : FeedStep batchSize webhookStreams s action s') :
    ∃ id ≤ s'.blockStream.lastDelivered,
      ∀ x, PutAt (log ++ events batchSize webhookStreams s action) x ↔
        PostedBefore (log ++ events batchSize webhookStreams s action) (id + 1) x := by
  obtain ⟨id, hid, hput⟩ := h.put
  have hmark := lastDelivered_le_feedStep hfeed
  have hbound := s.blockStream.delivered_le
  cases written_cases hfeed with
  | inl hnone =>
    -- nothing is put, and a new message is above the mark
    refine ⟨id, by omega, fun x => ?_⟩
    rw [postedBefore_events (by omega), ← hput, putAt_events hfeed]
    simp [putHeights, hnone]
  | inr hbatch =>
    obtain ⟨msgs, isBacklogMsg, hhandler, hpost, hstream, hblocks⟩ := hbatch
    refine ⟨s.blockStream.lastDelivered, hmark, fun x => ?_⟩
    have hheights : x ∈ putHeights batchSize webhookStreams s action ↔
        ∃ m ∈ msgs, m.data.height = x := by
      simp [putHeights, hblocks, blocksOf]
    rw [postedBefore_events (by omega), putAt_events hfeed, hheights]
    have hhanded := hrouter.handed
    have hat := hloop.at_loop
    rw [hhandler] at hhanded hat
    constructor
    · intro hx
      cases hx with
      | inl hold => exact ((hput x).1 hold).mono (by omega)
      | inr hnew =>
        obtain ⟨m, hm, rfl⟩ := hnew
        obtain ⟨hpending, v, hentry, hdata⟩ := hhanded m hm
        cases hdata
        have hle := (GroupStream.pelIds_bounded hpending).2
        exact ⟨m.id, m.data, hrouter.entries _ _ hentry, by omega, rfl⟩
    · intro hx
      obtain ⟨i, msg, hmem, hlt, rfl⟩ := hx
      -- a message that was given to the router is done or in its batch
      cases hrouter.waiting i msg hmem with
      | inl hdone => exact .inl hdone.1
      | inr hwaiting =>
        right
        have hpending : i ∈ s.blockStream.pelIds () :=
          hwaiting.2.resolve_left (by omega)
        obtain ⟨m, hm, rfl⟩ := List.mem_map.1 (hat.1 hpending)
        obtain ⟨-, v, hentry, hdata⟩ := hhanded m hm
        cases hdata
        have hsame := hrouter.posted_unique _ _ _ hmem (hrouter.entries _ _ hentry)
        exact ⟨m, hm, by rw [hsame]⟩

/-- Where the forwarder starts and goes on. -/
private theorem ForwardInv.next_step (htop : top + 1 < 2 ^ 64) (h : ForwardInv chain top s log)
    (hrouter : RouterInv webhookStreams s.blockStream s.router log)
    (hstores : StoresReached s log) (hfeed : FeedStep batchSize webhookStreams s action s')
    (hfwd : ForwardsChain chain top s action) {height : UInt64}
    (hnext : s'.forwarder = .subscribed height) :
    1 ≤ height.toNat ∧
      Follows (Posted (log ++ events batchSize webhookStreams s action)) height := by
  have hone : (1 : UInt64).toNat = 1 := rfl
  have hsame : s.postOf action = none → 1 ≤ height.toNat ∧ Follows (Posted log) height →
      1 ≤ height.toNat ∧
        Follows (Posted (log ++ events batchSize webhookStreams s action)) height :=
    fun hpost hold => ⟨hold.1, hold.2.congr (posted_events hpost)⟩
  -- the height of a stored block has been posted
  have hstored : ∀ b, s.stores.store.Stored b →
      1 ≤ b.height.toNat ∧ Follows (Posted log) b.height := by
    intro b hb
    have hput := (putAt_iff hstores b.height).2 ⟨b, hb, rfl⟩
    have hposted := h.posted_of_put hput
    exact ⟨(h.bounded hput).1, .inr ⟨_, _, hposted, hposted, Nat.le_refl _, Nat.le_succ _⟩⟩
  cases hfeed with
  | latestCached block hs hlatest =>
    cases hnext
    exact hsame rfl (hstored block (.inl (RedisBlockStore.getLatestBlock_eq_some hlatest).1))
  | notCached hs hlatest => cases hnext
  | latestWrapped tip block hs hlatest =>
    cases hnext
    exact hsame rfl (hstored block (.inr (TimescaleBlockStore.getLatestBlock_eq_some hlatest).1))
  | tip tip hs hlatest =>
    cases hnext
    -- nothing is stored, so the forwarder starts at the tip of the chain
    obtain ⟨hpos, hfollows⟩ := hfwd (TimescaleBlockStore.getLatestBlock_eq_none.1 hlatest)
    refine hsame rfl ⟨UInt64.le_iff_toNat_le.1 hpos, ?_⟩
    exact hfollows.congr fun x => (h.posted_iff hrouter hstores x).symm
  | forward block currHeight hs =>
    cases hnext
    have hpost : s.postOf (.forward block : FeedAction δ κ ι β) = some ⟨block, currHeight⟩ := by
      simp only [Feed.postOf, hs]
    have hle := (post_cases hfwd hpost).2.2
    have hnew : Posted (log ++ events batchSize webhookStreams s (.forward block)) currHeight :=
      ⟨_, _, List.mem_append_right _ (mem_events_posted.2 ⟨hpost, rfl⟩), rfl⟩
    have hsucc : (currHeight + 1).toNat = currHeight.toNat + 1 := by
      rw [UInt64.toNat_add, hone]
      simp only at hle
      omega
    exact ⟨by omega, .inr ⟨currHeight, currHeight, hnew, hnew, by omega, by omega⟩⟩
  | forwarderCrash => cases hnext
  | xAdd msg => exact hfwd.elim
  | router action blockStream router effect heffect hmove =>
    rw [forwarder_applyEffect] at hnext
    exact hsame rfl (h.next height hnext)
  | flusher action stores hput hstep => exact hsame rfl (h.next height hnext)
  | shard action d a shard hanswered haction hpost heffect hstore hstep =>
    exact hsame hpost (h.next height hnext)

/-- As long as the forwarder forwards the chain, every action keeps the invariant. -/
theorem forwardInv_step (htop : top + 1 < 2 ^ 64) (h : ForwardInv chain top s log)
    (hrouter : RouterInv webhookStreams s.blockStream s.router log)
    (hloop : LoopInv s.blockStream () batchSize s.router.loop) (hstores : StoresReached s log)
    (hfeed : FeedStep batchSize webhookStreams s action s')
    (hfwd : ForwardsChain chain top s action) :
    ForwardInv chain top s' (log ++ events batchSize webhookStreams s action) where
  inOrder := by
    intro id msg hmem
    cases List.mem_append.1 hmem with
    | inl hold =>
      -- what was posted before an old message is what it was
      have hle := hrouter.posted_le id msg hold
      exact (h.inOrder id msg hold).congr fun x => (postedBefore_events (by omega) x).symm
    | inr hnew =>
      obtain ⟨hpost, rfl⟩ := mem_events_posted.1 hnew
      have hnext := (h.next _ (post_cases hfwd hpost).1).2
      refine hnext.congr fun x => ?_
      rw [postedBefore_events (Nat.le_refl _)]
      constructor
      · intro hx
        obtain ⟨i, m, hm, hheight⟩ := hx
        exact ⟨i, m, hm, Nat.lt_succ_of_le (hrouter.posted_le i m hm), hheight⟩
      · intro hx
        obtain ⟨i, m, hm, -, hheight⟩ := hx
        exact ⟨i, m, hm, hheight⟩
  genuine := by
    intro id msg hmem
    cases List.mem_append.1 hmem with
    | inl hold => exact h.genuine id msg hold
    | inr hnew =>
      obtain ⟨hforwarder, hblock, hle⟩ := post_cases hfwd (mem_events_posted.1 hnew).1
      exact ⟨hblock, (h.next _ hforwarder).1, hle⟩
  next := fun _ hnext => h.next_step htop hrouter hstores hfeed hfwd hnext
  put := h.put_step hrouter hloop hfeed
  payload := by
    intro b hb
    rw [blocksPut_append, blocksPut_events hfeed] at hb
    cases List.mem_append.1 hb with
    | inl hold => exact h.payload b hold
    | inr hnew =>
      cases written_cases hfeed with
      | inl hnone =>
        rw [hnone] at hnew
        cases hnew
      | inr hbatch =>
        obtain ⟨msgs, isBacklogMsg, hhandler, -, -, hblocks⟩ := hbatch
        rw [hblocks] at hnew
        obtain ⟨m, hm, rfl⟩ := List.mem_map.1 hnew
        have hhanded := hrouter.handed
        rw [hhandler] at hhanded
        obtain ⟨-, v, hentry, hdata⟩ := hhanded m hm
        cases hdata
        exact (h.genuine _ _ (hrouter.entries _ _ hentry)).1

omit [DecidableEq κ] [DecidableEq ι] [JobText ι T] in
/-- A height that is put for the first time is above all others. -/
theorem ForwardInv.new_above
    (h : ForwardInv chain top s' (log ++ events batchSize webhookStreams s action))
    (hrouter : RouterInv webhookStreams s'.blockStream s'.router
      (log ++ events batchSize webhookStreams s action))
    (hold : ForwardInv chain top s log) {x y : UInt64}
    (hx : PutAt (log ++ events batchSize webhookStreams s action) x) (hy : PutAt log y)
    (hle : x.toNat ≤ y.toNat) : PutAt log x := by
  obtain ⟨id, hid, hput⟩ := hold.put
  obtain ⟨id', -, hput'⟩ := h.put
  have hbound := s.blockStream.delivered_le
  have hsame : ∀ z, PostedBefore (log ++ events batchSize webhookStreams s action) (id + 1) z ↔
      PostedBefore log (id + 1) z := fun z => postedBefore_events (by omega) z
  have hy' := (hsame y).2 ((hput y).1 hy)
  have hx' := postedBefore_of_le h.inOrder hrouter.posted_unique ((hput' x).1 hx) hy' hle
  exact (hput x).2 ((hsame x).1 hx')

end Step

end Feed

end BlockFeed.Spec
