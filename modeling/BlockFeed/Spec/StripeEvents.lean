import BlockFeed.Native.StripeConsumer

/-!
# Consumption of Stripe events

With one consumer in the group, the pending-entries list is what the consumer has in hand: nothing
while it waits for new messages, the message it works on otherwise, and after a crash the messages
that were read and not deleted. `StreamInv` says what the stream keeps of the events produced,
`InHand` how the pending IDs fit the position of the loop.

The four results are put together in `stripe_events_consumed`: events are deleted after
`consumeEvent` has settled, new messages are read only when nothing is pending, without crashes
events are consumed and yielded in order and once (`ConsumedOnce`), and after a crash the pending
events come first.
-/

namespace BlockFeed.Spec

open BlockFeed.Native Redis Transition

section Outputs

variable {ε : Type}

/-- The events added to the stream. -/
def producedOf (log : List (StripeOutput ε)) : List (Nat × ε) :=
  log.filterMap fun
    | .produced id event => some (id, event)
    | _ => none

/-- The IDs returned by reads of new messages. -/
def deliveredOf (log : List (StripeOutput ε)) : List Nat :=
  log.filterMap fun
    | .delivered id => some id
    | _ => none

/-- The calls of `consumeEvent`. -/
def calledOf (log : List (StripeOutput ε)) : List (Nat × ε) :=
  log.filterMap fun
    | .called id event => some (id, event)
    | _ => none

/-- The calls of `consumeEvent` that have settled, with what they threw. -/
def settledOf (log : List (StripeOutput ε)) : List (Nat × ε × Option String) :=
  log.filterMap fun
    | .settled id event thrown => some (id, event, thrown)
    | _ => none

/-- The yielded arrays. -/
def yieldedOf (log : List (StripeOutput ε)) : List (List (StripeEvent ε)) :=
  log.filterMap fun
    | .yielded stripeEvents => some stripeEvents
    | _ => none

/-- The event of a settled call. -/
def settledEvent (call : Nat × ε × Option String) : Nat × ε := (call.1, call.2.1)

@[simp] theorem producedOf_append (log log' : List (StripeOutput ε)) :
    producedOf (log ++ log') = producedOf log ++ producedOf log' := List.filterMap_append

@[simp] theorem deliveredOf_append (log log' : List (StripeOutput ε)) :
    deliveredOf (log ++ log') = deliveredOf log ++ deliveredOf log' := List.filterMap_append

@[simp] theorem calledOf_append (log log' : List (StripeOutput ε)) :
    calledOf (log ++ log') = calledOf log ++ calledOf log' := List.filterMap_append

@[simp] theorem settledOf_append (log log' : List (StripeOutput ε)) :
    settledOf (log ++ log') = settledOf log ++ settledOf log' := List.filterMap_append

@[simp] theorem yieldedOf_append (log log' : List (StripeOutput ε)) :
    yieldedOf (log ++ log') = yieldedOf log ++ yieldedOf log' := List.filterMap_append

variable (ε) in
/-- What a read of new messages shows is their delivery. -/
theorem outputs_delivered {α : Type} (msgs : List (Nat × α)) :
    let log : List (StripeOutput ε) := msgs.map fun msg => .delivered msg.1
    producedOf log = [] ∧ deliveredOf log = msgs.map Prod.fst ∧ calledOf log = [] ∧
      settledOf log = [] ∧ yieldedOf log = [] := by
  induction msgs with
  | nil => exact ⟨rfl, rfl, rfl, rfl, rfl⟩
  | cons msg msgs ih =>
    obtain ⟨hp, hd, hc, hs, hy⟩ := ih
    exact ⟨hp, congrArg (msg.1 :: ·) hd, hc, hs, hy⟩

end Outputs

section Stream

variable {κ ε T : Type} [DecidableEq κ] [EventText ε T]

/-- What the stream holds of the events produced, given the IDs delivered and the calls that have
    settled. -/
structure StreamInv (me : κ) (stream : GroupStream κ T) (produced : List (Nat × ε))
    (delivered : List Nat) (settled : List (Nat × ε × Option String)) : Prop where
  ascending : produced.Pairwise (fun a b => a.1 < b.1)
  bounded : ∀ p ∈ produced, p.1 ≤ stream.lastId
  /-- messages from before the first `build` are never unread -/
  unread : ∀ msg ∈ stream.unread, ∃ event, (msg.1, event) ∈ produced ∧
    msg.2 = EventText.stringify event
  delivered_le : ∀ id ∈ delivered, id ≤ stream.lastDelivered
  pending : ∀ id ∈ stream.pelIds me, id ∈ delivered ∧
    ∃ event, (id, event) ∈ produced ∧ (id, EventText.stringify event) ∈ stream.entries
  redelivered : ∀ id ∈ delivered, ∀ text, (id, text) ∈ stream.entries → id ∈ stream.pelIds me
  kept : ∀ p ∈ produced, (p.1, EventText.stringify p.2) ∈ stream.entries ∨
    ∃ thrown, (p.1, p.2, thrown) ∈ settled

variable {me : κ} {stream : GroupStream κ T} {produced : List (Nat × ε)} {delivered : List Nat}
  {settled : List (Nat × ε × Option String)}

omit [DecidableEq κ] in
/-- Texts determine their events. -/
theorem stringify_inj {a b : ε} (h : (EventText.stringify a : T) = EventText.stringify b) :
    a = b := by
  have hparse := congrArg EventText.parse h
  rw [EventText.parse_stringify, EventText.parse_stringify] at hparse
  exact Option.some.inj hparse

theorem streamInv_init (me : κ) (stream : GroupStream κ T) :
    StreamInv me (xgroupCreate stream) ([] : List (Nat × ε)) [] [] where
  ascending := .nil
  bounded := fun _ h => absurd h List.not_mem_nil
  unread := by
    intro msg hmsg
    obtain ⟨hentry, hlt⟩ := GroupStream.mem_unread.1 hmsg
    exact absurd hlt (Nat.not_lt.2 (stream.bounded msg hentry).2)
  delivered_le := fun _ h => absurd h List.not_mem_nil
  pending := fun _ h => absurd h List.not_mem_nil
  redelivered := fun _ h => absurd h List.not_mem_nil
  kept := fun _ h => absurd h List.not_mem_nil

namespace StreamInv

/-- A new event waits behind the others. -/
theorem xadd (h : StreamInv me stream produced delivered settled) (event : ε) :
    StreamInv me (stream.xadd (EventText.stringify event))
      (produced ++ [(stream.lastId + 1, event)]) delivered settled where
  ascending := by
    refine List.pairwise_append.2 ⟨h.ascending, List.pairwise_singleton _ _, ?_⟩
    intro a ha b hb
    rw [List.mem_singleton.1 hb]
    exact Nat.lt_succ_of_le (h.bounded a ha)
  bounded := by
    intro p hp
    cases List.mem_append.1 hp with
    | inl hp => exact Nat.le_succ_of_le (h.bounded p hp)
    | inr hp => rw [List.mem_singleton.1 hp]; exact Nat.le_refl _
  unread := by
    intro msg hmsg
    rw [GroupStream.unread_xadd, List.mem_append, List.mem_singleton] at hmsg
    cases hmsg with
    | inl hmsg =>
      obtain ⟨e, he, htext⟩ := h.unread msg hmsg
      exact ⟨e, List.mem_append_left _ he, htext⟩
    | inr hmsg =>
      rw [hmsg]
      exact ⟨event, List.mem_append_right _ (List.mem_singleton.2 rfl), rfl⟩
  delivered_le := h.delivered_le
  pending := by
    intro id hid
    obtain ⟨hdel, e, he, hentry⟩ := h.pending id hid
    exact ⟨hdel, e, List.mem_append_left _ he, List.mem_append_left _ hentry⟩
  redelivered := by
    intro id hid text hentry
    cases List.mem_append.1 hentry with
    | inl hentry => exact h.redelivered id hid text hentry
    | inr hentry =>
      -- the new ID has not been delivered
      have hid' : id = stream.lastId + 1 := congrArg Prod.fst (List.mem_singleton.1 hentry)
      have hle := h.delivered_le id hid
      have hmark := stream.delivered_le
      omega
  kept := by
    intro p hp
    cases List.mem_append.1 hp with
    | inl hp => exact (h.kept p hp).imp_left (List.mem_append_left _)
    | inr hp =>
      rw [List.mem_singleton.1 hp]
      exact .inl (List.mem_append_right _ (List.mem_singleton.2 rfl))

/-- A read of the backlog changes delivery counts only. -/
theorem xreadgroupFrom (h : StreamInv me stream produced delivered settled) (cursorId count : Nat) :
    StreamInv me (stream.xreadgroupFrom me cursorId count).2 produced delivered settled where
  ascending := h.ascending
  bounded := h.bounded
  unread := h.unread
  delivered_le := h.delivered_le
  pending := by
    intro id hid
    rw [GroupStream.pelIds_xreadgroupFrom] at hid
    exact h.pending id hid
  redelivered := by
    intro id hid text hentry
    rw [GroupStream.pelIds_xreadgroupFrom]
    exact h.redelivered id hid text hentry
  kept := h.kept

/-- What is read with `>` becomes pending. -/
theorem xreadgroupNew (h : StreamInv me stream produced delivered settled) (count : Nat) :
    StreamInv me (stream.xreadgroupNew me count).2 produced
      (delivered ++ (stream.unread.take count).map Prod.fst) settled where
  ascending := h.ascending
  bounded := h.bounded
  unread := by
    intro msg hmsg
    rw [GroupStream.unread_xreadgroupNew] at hmsg
    exact h.unread msg (List.mem_of_mem_drop hmsg)
  delivered_le := by
    intro id hid
    cases List.mem_append.1 hid with
    | inl hid =>
      exact Nat.le_trans (h.delivered_le id hid)
        (GroupStream.lastDelivered_le_xreadgroupNew stream me count)
    | inr hid =>
      have hpending : id ∈ (stream.xreadgroupNew me count).2.pelIds me := by
        rw [GroupStream.pelIds_xreadgroupNew_self]
        exact List.mem_append_right _ hid
      exact (GroupStream.pelIds_bounded hpending).2
  pending := by
    intro id hid
    rw [GroupStream.pelIds_xreadgroupNew_self, List.mem_append] at hid
    cases hid with
    | inl hid =>
      obtain ⟨hdel, hevent⟩ := h.pending id hid
      exact ⟨List.mem_append_left _ hdel, hevent⟩
    | inr hid =>
      refine ⟨List.mem_append_right _ hid, ?_⟩
      obtain ⟨msg, hmsg, rfl⟩ := List.mem_map.1 hid
      have hmsg := List.mem_of_mem_take hmsg
      obtain ⟨event, hevent, htext⟩ := h.unread msg hmsg
      exact ⟨event, hevent, htext ▸ (GroupStream.mem_unread.1 hmsg).1⟩
  redelivered := by
    intro id hid text hentry
    rw [GroupStream.pelIds_xreadgroupNew_self]
    cases List.mem_append.1 hid with
    | inl hid => exact List.mem_append_left _ (h.redelivered id hid text hentry)
    | inr hid => exact List.mem_append_right _ hid
  kept := h.kept

/-- Messages are acknowledged and deleted together, after their calls have settled. -/
theorem xAckDel (h : StreamInv me stream produced delivered settled) {ids : List Nat}
    (hids : ∀ id ∈ ids, ∃ event thrown, (id, event) ∈ produced ∧ (id, event, thrown) ∈ settled) :
    StreamInv me (Native.xAckDel stream ids) produced delivered settled where
  ascending := h.ascending
  bounded := h.bounded
  unread := by
    intro msg hmsg
    rw [unread_xAckDel] at hmsg
    exact h.unread msg (List.mem_of_mem_filter hmsg)
  delivered_le := h.delivered_le
  pending := by
    intro id hid
    rw [pelIds_xAckDel] at hid
    obtain ⟨hmem, hnot⟩ := List.mem_filter.1 hid
    obtain ⟨hdel, event, hevent, hentry⟩ := h.pending id hmem
    exact ⟨hdel, event, hevent, List.mem_filter.2 ⟨hentry, hnot⟩⟩
  redelivered := by
    intro id hid text hentry
    obtain ⟨hmem, hnot⟩ := List.mem_filter.1 hentry
    rw [pelIds_xAckDel]
    exact List.mem_filter.2 ⟨h.redelivered id hid text hmem, hnot⟩
  kept := by
    intro p hp
    by_cases hdel : p.1 ∈ ids
    · -- IDs are unique, so it is this event whose call has settled
      obtain ⟨event, thrown, hevent, hsettled⟩ := hids p.1 hdel
      have hnd : (produced.map Prod.fst).Nodup :=
        List.pairwise_map.2 (h.ascending.imp Nat.ne_of_lt)
      have heq : event = p.2 := congrArg Prod.snd (List.inj_on_of_nodup_map hnd hevent hp rfl)
      exact .inr ⟨thrown, heq ▸ hsettled⟩
    · refine (h.kept p hp).imp_left fun hentry => ?_
      exact List.mem_filter.2 ⟨hentry, decide_eq_true hdel⟩

/-- More calls settle. -/
theorem settle (h : StreamInv me stream produced delivered settled)
    (call : Nat × ε × Option String) :
    StreamInv me stream produced delivered (settled ++ [call]) where
  ascending := h.ascending
  bounded := h.bounded
  unread := h.unread
  delivered_le := h.delivered_le
  pending := h.pending
  redelivered := h.redelivered
  kept := by
    intro p hp
    refine (h.kept p hp).imp_right fun hsettled => ?_
    obtain ⟨thrown, hsettled⟩ := hsettled
    exact ⟨thrown, List.mem_append_left _ hsettled⟩

end StreamInv

/-! ## The position of the loop -/

/-- The messages in hand whose calls have not settled. -/
def heldMsgs : ConsumeLoop ε → List (ParsedStreamMessage ε)
  | .processing _ _ msgs => msgs
  | .consumeEvent _ _ msg msgs => msg :: msgs
  | _ => []

/-- The events in hand whose calls have settled, before they are deleted. -/
def doneEvents : ConsumeLoop ε → List (StripeEvent ε)
  | .processing _ stripeEvents _ => stripeEvents
  | .consumeEvent _ stripeEvents _ _ => stripeEvents
  | _ => []

/-- The pending IDs that a read with this cursor leaves in hand. -/
def taken (cursorId : Cursor) (pending : List Nat) : List Nat :=
  match cursorId with
  | .backlog => pending.take readCount
  | .new => pending

/-- How the pending IDs fit the position. -/
def InHand (pending : List Nat) : ConsumeLoop ε → Prop
  | .xreadgroup .new => pending = []
  | .processing cursorId stripeEvents msgs =>
    stripeEvents.map StripeEvent.id ++ msgs.map ParsedStreamMessage.id = taken cursorId pending
  | .consumeEvent cursorId stripeEvents msg msgs =>
    stripeEvents.map StripeEvent.id ++ (msg :: msgs).map ParsedStreamMessage.id =
      taken cursorId pending
  | .yielding .new _ => pending = []
  | _ => True

/-- What holds of the stream, the loop and the outputs. -/
structure ConsumeInv (me : κ) (s : StripeConsumer κ ε T) (log : List (StripeOutput ε)) : Prop where
  stream : StreamInv me s.stream (producedOf log) (deliveredOf log) (settledOf log)
  inHand : InHand (s.stream.pelIds me) s.loop
  held : ∀ msg ∈ heldMsgs s.loop, (msg.id, msg.data) ∈ producedOf log
  done : ∀ event ∈ doneEvents s.loop, (event.id, event.data) ∈ producedOf log ∧
    ∃ thrown, (event.id, event.data, thrown) ∈ settledOf log

/-- Messages that were produced parse, so the loop goes on with them. -/
theorem received_cases (cursorId : Cursor) {msgs : List (Nat × Option T)}
    (hmsgs : ∀ msg ∈ msgs, ∃ event, (msg.1, event) ∈ produced ∧
      msg.2 = some (EventText.stringify event)) :
    (msgs = [] ∧ (StripeConsumer.received cursorId msgs : ConsumeLoop ε) =
        .xreadgroup (match cursorId with | .backlog => .new | .new => .backlog)) ∨
      ∃ parsed, StripeConsumer.received cursorId msgs = .processing cursorId [] parsed ∧
        msgs ≠ [] ∧ (∀ msg ∈ parsed, (msg.id, msg.data) ∈ produced) ∧
        parsed.map (fun msg => (msg.id, some (EventText.stringify msg.data : T))) = msgs := by
  cases msgs with
  | nil => cases cursorId <;> exact .inl ⟨rfl, rfl⟩
  | cons msg msgs =>
    right
    obtain ⟨parsed, hparse, hparsed, hsame⟩ : ∃ parsed,
        parseMessages EventText.parse (msg :: msgs) = some parsed ∧
        (∀ m ∈ parsed, (m.id, m.data) ∈ produced) ∧
        parsed.map (fun m => (m.id, some (EventText.stringify m.data : T))) = msg :: msgs := by
      generalize msg :: msgs = reply at hmsgs
      induction reply with
      | nil => exact ⟨[], rfl, fun _ h => absurd h List.not_mem_nil, rfl⟩
      | cons m reply ih =>
        obtain ⟨parsed, hparse, hparsed, hsame⟩ :=
          ih fun m hm => hmsgs m (List.mem_cons_of_mem _ hm)
        obtain ⟨event, hevent, htext⟩ := hmsgs m List.mem_cons_self
        obtain ⟨id, text⟩ := m
        subst htext
        refine ⟨⟨id, event⟩ :: parsed, ?_, ?_, ?_⟩
        · simp only [parseMessages, Option.bind_some, EventText.parse_stringify, hparse,
            Option.map_some]
        · intro m hm
          cases List.mem_cons.1 hm with
          | inl hm => rw [hm]; exact hevent
          | inr hm => exact hparsed m hm
        · rw [List.map_cons, hsame]
    refine ⟨parsed, ?_, List.cons_ne_nil _ _, hparsed, hsame⟩
    simp only [StripeConsumer.received, List.isEmpty_cons, Bool.false_eq_true, if_false, hparse]

/-- So they are what the loop has in hand. -/
theorem received_inHand (cursorId : Cursor) {msgs : List (Nat × Option T)} {pending : List Nat}
    (hmsgs : ∀ msg ∈ msgs, ∃ event, (msg.1, event) ∈ produced ∧
      msg.2 = some (EventText.stringify event))
    (hids : msgs.map Prod.fst = taken cursorId pending) :
    InHand pending (StripeConsumer.received cursorId msgs : ConsumeLoop ε) ∧
      (∀ msg ∈ heldMsgs (StripeConsumer.received cursorId msgs), (msg.id, msg.data) ∈ produced) ∧
      doneEvents (StripeConsumer.received cursorId msgs : ConsumeLoop ε) = [] := by
  cases received_cases cursorId hmsgs with
  | inl hempty =>
    obtain ⟨hnil, hnext⟩ := hempty
    rw [hnext]
    refine ⟨?_, fun _ h => absurd h List.not_mem_nil, rfl⟩
    cases cursorId with
    | backlog =>
      -- no message at all is pending
      rw [hnil] at hids
      cases List.take_eq_nil_iff.1 hids.symm with
      | inl hzero => cases hzero
      | inr hnone => exact hnone
    | new => trivial
  | inr hsome =>
    obtain ⟨parsed, hnext, -, hparsed, hsame⟩ := hsome
    rw [hnext]
    refine ⟨?_, hparsed, rfl⟩
    show [] ++ parsed.map ParsedStreamMessage.id = taken cursorId pending
    rw [← hids, ← hsame, List.map_map, List.nil_append]
    rfl

/-- The reply to a read of the backlog. -/
theorem backlog_reply (h : StreamInv me stream produced delivered settled) :
    (stream.xreadgroupFrom me 0 readCount).1.map Prod.fst = (stream.pelIds me).take readCount ∧
      ∀ msg ∈ (stream.xreadgroupFrom me 0 readCount).1, ∃ event, (msg.1, event) ∈ produced ∧
        msg.2 = some (EventText.stringify event) := by
  constructor
  · rw [GroupStream.ids_xreadgroupFrom, List.filter_eq_self.2]
    exact fun id hid => decide_eq_true (GroupStream.pelIds_bounded hid).1
  · intro msg hmsg
    obtain ⟨p, hp, rfl⟩ := List.mem_map.1 hmsg
    obtain ⟨hpel, hconsumer, -⟩ := GroupStream.mem_backlog hp
    obtain ⟨-, event, hevent, hentry⟩ :=
      h.pending p.id (GroupStream.mem_pelIds.2 ⟨p, hpel, hconsumer, rfl⟩)
    exact ⟨event, hevent, GroupStream.get?_eq_some.2 hentry⟩

/-- The reply to a read of new messages. -/
theorem new_reply (h : StreamInv me stream produced delivered settled) (count : Nat) :
    ∀ msg ∈ (stream.unread.take count).map fun msg => (msg.1, some msg.2),
      ∃ event, (msg.1, event) ∈ produced ∧ msg.2 = some (EventText.stringify event) := by
  intro msg hmsg
  obtain ⟨entry, hentry, rfl⟩ := List.mem_map.1 hmsg
  obtain ⟨event, hevent, htext⟩ := h.unread entry (List.mem_of_mem_take hentry)
  exact ⟨event, hevent, congrArg some htext⟩

/-- What is in hand is pending. -/
theorem pending_of_inHand {pending : List Nat} {loop : ConsumeLoop ε} (h : InHand pending loop) :
    ∀ msg ∈ heldMsgs loop, msg.id ∈ pending := by
  have htaken : ∀ (cursorId : Cursor) (id : Nat), id ∈ taken cursorId pending → id ∈ pending := by
    intro cursorId id hid
    cases cursorId with
    | backlog => exact List.mem_of_mem_take hid
    | new => exact hid
  intro msg hmsg
  cases loop with
  | processing cursorId stripeEvents msgs =>
    refine htaken cursorId _ ?_
    rw [← show _ = taken cursorId pending from h]
    exact List.mem_append_right _ (List.mem_map_of_mem hmsg)
  | consumeEvent cursorId stripeEvents m msgs =>
    refine htaken cursorId _ ?_
    rw [← show _ = taken cursorId pending from h]
    exact List.mem_append_right _ (List.mem_map_of_mem hmsg)
  | xreadgroup cursorId => cases hmsg
  | yielding cursorId stripeEvents => cases hmsg
  | stopped => cases hmsg

namespace ConsumeInv

variable {s s' : StripeConsumer κ ε T} {log : List (StripeOutput ε)}

theorem init (me : κ) (stream : GroupStream κ T) :
    ConsumeInv me (.init stream : StripeConsumer κ ε T) [] where
  stream := streamInv_init me stream
  inHand := trivial
  held := fun _ h => absurd h List.not_mem_nil
  done := fun _ h => absurd h List.not_mem_nil

/-- A step of the loop that leaves the stream alone and takes nothing new in hand. -/
theorem move (h : ConsumeInv me s log) {loop : ConsumeLoop ε} {out : List (StripeOutput ε)}
    (hout : producedOf out = [] ∧ deliveredOf out = [] ∧ settledOf out = [])
    (hinHand : InHand (s.stream.pelIds me) loop) (hheld : heldMsgs loop ⊆ heldMsgs s.loop)
    (hdone : doneEvents loop ⊆ doneEvents s.loop) :
    ConsumeInv me { s with loop := loop } (log ++ out) := by
  obtain ⟨hp, hd, hs⟩ := hout
  refine ⟨?_, hinHand, ?_, ?_⟩
  · rw [producedOf_append, deliveredOf_append, settledOf_append, hp, hd, hs, List.append_nil,
      List.append_nil, List.append_nil]
    exact h.stream
  · intro msg hmsg
    rw [producedOf_append, hp, List.append_nil]
    exact h.held msg (hheld hmsg)
  · intro event hevent
    rw [producedOf_append, settledOf_append, hp, hs, List.append_nil, List.append_nil]
    exact h.done event (hdone hevent)

theorem produce (h : ConsumeInv me s log) (event : ε) :
    ConsumeInv me { s with stream := s.stream.xadd (EventText.stringify event) }
      (log ++ [.produced (s.stream.lastId + 1) event]) := by
  refine ⟨?_, h.inHand, ?_, ?_⟩
  · simp only [producedOf_append, deliveredOf_append, settledOf_append]
    have hadd := h.stream.xadd event
    rwa [← List.append_nil (deliveredOf log), ← List.append_nil (settledOf log)] at hadd
  · intro msg hmsg
    rw [producedOf_append]
    exact List.mem_append_left _ (h.held msg hmsg)
  · intro e he
    obtain ⟨hproduced, thrown, hsettled⟩ := h.done e he
    rw [producedOf_append, settledOf_append]
    exact ⟨List.mem_append_left _ hproduced, thrown, List.mem_append_left _ hsettled⟩

/-- Reading the backlog takes what is pending in hand and forgets nothing. -/
theorem readBacklog (h : ConsumeInv me s log) :
    ConsumeInv me ⟨(s.stream.xreadgroupFrom me 0 readCount).2,
      StripeConsumer.received .backlog (s.stream.xreadgroupFrom me 0 readCount).1⟩ log := by
  obtain ⟨hids, hreply⟩ := backlog_reply h.stream
  obtain ⟨hinHand, hheld, hdone⟩ := received_inHand .backlog hreply hids
  refine ⟨h.stream.xreadgroupFrom 0 readCount, ?_, hheld, ?_⟩
  · rw [GroupStream.pelIds_xreadgroupFrom]
    exact hinHand
  · intro event hevent
    rw [hdone] at hevent
    cases hevent

/-- New messages are read when nothing is pending. -/
theorem noPending (h : ConsumeInv me s log) (hloop : s.loop = .xreadgroup .new) :
    s.stream.pelIds me = [] := by
  have hinHand := h.inHand
  rw [hloop] at hinHand
  exact hinHand

/-- So what is read is all that is pending then. -/
theorem taken_new (h : ConsumeInv me s log) (hloop : s.loop = .xreadgroup .new) :
    ((s.stream.unread.take readCount).map fun msg => (msg.1, some msg.2)).map Prod.fst =
      taken .new ((s.stream.xreadgroupNew me readCount).2.pelIds me) := by
  rw [GroupStream.pelIds_xreadgroupNew_self, h.noPending hloop, List.map_map]
  rfl

theorem readNew (h : ConsumeInv me s log) (hloop : s.loop = .xreadgroup .new) :
    ConsumeInv me ⟨(s.stream.xreadgroupNew me readCount).2,
        StripeConsumer.received .new
          ((s.stream.unread.take readCount).map fun msg => (msg.1, some msg.2))⟩
      (log ++ (s.stream.unread.take readCount).map fun msg => .delivered msg.1) := by
  obtain ⟨hinHand, hheld, hdone⟩ :=
    received_inHand .new (new_reply h.stream readCount) (h.taken_new hloop)
  obtain ⟨hp, hd, -, hs, -⟩ := outputs_delivered ε (s.stream.unread.take readCount)
  refine ⟨?_, hinHand, ?_, ?_⟩
  · rw [producedOf_append, deliveredOf_append, settledOf_append, hp, hd, hs, List.append_nil,
      List.append_nil]
    exact h.stream.xreadgroupNew readCount
  · intro msg hmsg
    rw [producedOf_append, hp, List.append_nil]
    exact hheld msg hmsg
  · intro event hevent
    rw [hdone] at hevent
    cases hevent

/-- What is deleted is in hand and has settled. -/
theorem xackdel (h : ConsumeInv me s log) {cursorId : Cursor} {event : StripeEvent ε}
    {stripeEvents : List (StripeEvent ε)}
    (hloop : s.loop = .processing cursorId (event :: stripeEvents) []) :
    ConsumeInv me ⟨xAckDel s.stream ((event :: stripeEvents).map StripeEvent.id),
      .yielding cursorId (event :: stripeEvents)⟩ log := by
  have hdone := h.done
  have hinHand := h.inHand
  rw [hloop] at hdone hinHand
  refine ⟨h.stream.xAckDel ?_, ?_, fun _ h => absurd h List.not_mem_nil,
    fun _ h => absurd h List.not_mem_nil⟩
  · intro id hid
    obtain ⟨e, he, rfl⟩ := List.mem_map.1 hid
    obtain ⟨hproduced, thrown, hsettled⟩ := hdone e he
    exact ⟨e.data, thrown, hproduced, hsettled⟩
  · cases cursorId with
    | backlog => trivial
    | new =>
      -- everything pending has been in hand
      have hall : (event :: stripeEvents).map StripeEvent.id ++ [] = s.stream.pelIds me := hinHand
      rw [List.append_nil] at hall
      show (xAckDel s.stream _).pelIds me = []
      rw [pelIds_xAckDel, hall, List.filter_eq_nil_iff]
      intro id hid hnot
      exact of_decide_eq_true hnot hid

/-- A call settles: its message becomes an event. -/
private theorem settle (h : ConsumeInv me s log) {cursorId : Cursor}
    {stripeEvents : List (StripeEvent ε)} {msg : ParsedStreamMessage ε}
    {msgs : List (ParsedStreamMessage ε)}
    (hloop : s.loop = .consumeEvent cursorId stripeEvents msg msgs) (thrown : Option String) :
    ConsumeInv me
      { s with
        loop := .processing cursorId
          (stripeEvents ++ [StripeConsumer.stripeEvent T msg thrown]) msgs }
      (log ++ [.settled msg.id msg.data thrown]) := by
  have hinHand := h.inHand
  have hheld := h.held
  have hdone := h.done
  rw [hloop] at hinHand hheld hdone
  refine ⟨?_, ?_, ?_, ?_⟩
  · simp only [producedOf_append, deliveredOf_append, settledOf_append]
    have hsettle := h.stream.settle (msg.id, msg.data, thrown)
    rwa [← List.append_nil (producedOf log), ← List.append_nil (deliveredOf log)] at hsettle
  · show (stripeEvents ++ [_]).map StripeEvent.id ++ _ = taken cursorId _
    rw [List.map_append, List.append_assoc]
    exact hinHand
  · intro m hm
    rw [producedOf_append]
    exact List.mem_append_left _ (hheld m (List.mem_cons_of_mem _ hm))
  · intro e he
    rw [producedOf_append, settledOf_append]
    cases List.mem_append.1 he with
    | inl he =>
      obtain ⟨hproduced, t, hsettled⟩ := hdone e he
      exact ⟨List.mem_append_left _ hproduced, t, List.mem_append_left _ hsettled⟩
    | inr he =>
      rw [List.mem_singleton.1 he]
      exact ⟨List.mem_append_left _ (hheld msg List.mem_cons_self), thrown,
        List.mem_append_right _ (List.mem_singleton.2 rfl)⟩

/-- Every action keeps the invariant. -/
theorem step (h : ConsumeInv me s log) {a : StripeAction ε} (hstep : s.step me a = some s') :
    ConsumeInv me s' (log ++ s.emit a) := by
  have hinHand := h.inHand
  have hsteps := StripeConsumer.step_cases hstep
  generalize s.emit a = out at hsteps
  cases hsteps with
  | produce event => exact h.produce event
  | abort => exact h.move ⟨rfl, rfl, rfl⟩ trivial (List.nil_subset _) (List.nil_subset _)
  | backlog =>
    rw [List.append_nil]
    exact h.readBacklog
  | new hloop => exact h.readNew hloop
  | timeout hloop =>
    rw [hloop] at hinHand
    exact h.move ⟨rfl, rfl, rfl⟩ hinHand (List.nil_subset _) (List.nil_subset _)
  | consumeEvent hloop =>
    rw [hloop] at hinHand
    refine h.move ⟨rfl, rfl, rfl⟩ hinHand ?_ ?_
    · rw [hloop]
      exact List.Subset.refl _
    · rw [hloop]
      exact List.Subset.refl _
  | settle thrown hloop => exact h.settle hloop thrown
  | xackdel hloop =>
    rw [List.append_nil]
    exact h.xackdel hloop
  | @yield cursorId stripeEvents hloop =>
    rw [hloop] at hinHand
    refine h.move ⟨rfl, rfl, rfl⟩ ?_ (List.nil_subset _) (List.nil_subset _)
    cases cursorId with
    | backlog => trivial
    | new => exact hinHand
  | crash => exact h.move ⟨rfl, rfl, rfl⟩ trivial (List.nil_subset _) (List.nil_subset _)
  | restart => exact h.move ⟨rfl, rfl, rfl⟩ trivial (List.nil_subset _) (List.nil_subset _)

end ConsumeInv

theorem consumeInv_run {as : List (StripeAction ε)} {s : StripeConsumer κ ε T}
    {log : List (StripeOutput ε)}
    (h : run (recorded (StripeConsumer.step me) StripeConsumer.emit) (.init stream, []) as =
      some (s, log)) : ConsumeInv me s log := by
  have hinit : ConsumeInv me (.init stream : StripeConsumer κ ε T) [] := ConsumeInv.init me stream
  refine run_invariant (P := fun p : StripeConsumer κ ε T × List (StripeOutput ε) =>
    ConsumeInv me p.1 p.2) ?_ h hinit
  intro p a p' hstep hp
  obtain ⟨hstep, hlog⟩ := recorded_eq_some.1 hstep
  rw [hlog]
  exact hp.step hstep

/-! ## Without crashes -/

/-- The call that runs. -/
def runningCall : ConsumeLoop ε → List (Nat × ε)
  | .consumeEvent _ _ msg _ => [(msg.id, msg.data)]
  | _ => []

/-- The events that have settled and are not yielded yet. -/
def unyielded : ConsumeLoop ε → List (StripeEvent ε)
  | .processing _ stripeEvents _ => stripeEvents
  | .consumeEvent _ stripeEvents _ _ => stripeEvents
  | .yielding _ stripeEvents => stripeEvents
  | _ => []

/-- Nothing is left over from before the start of the loop. -/
def NoBacklog (pending : List Nat) : ConsumeLoop ε → Prop
  | .xreadgroup .backlog => pending = []
  | .processing cursorId _ _ => cursorId = .new
  | .consumeEvent cursorId _ _ _ => cursorId = .new
  | .yielding cursorId _ => cursorId = .new
  | _ => True

/-- The value that is yielded for a settled call: `err` is defined exactly if it threw. -/
def outcome (T : Type) [EventText ε T] (call : Nat × ε × Option String) : StripeEvent ε :=
  StripeConsumer.stripeEvent T ⟨call.1, call.2.1⟩ call.2.2

/-- The events in the order of the stream: first those whose calls have settled, then those in
    hand, then those that wait in the stream. -/
structure ConsumeOrder (me : κ) (s : StripeConsumer κ ε T) (log : List (StripeOutput ε)) : Prop where
  order : ∃ waiting : List (Nat × ε),
    waiting.map (fun p => (p.1, (EventText.stringify p.2 : T))) = s.stream.unread ∧
      producedOf log = (settledOf log).map settledEvent ++
        (heldMsgs s.loop).map (fun msg => (msg.id, msg.data)) ++ waiting
  called : calledOf log = (settledOf log).map settledEvent ++ runningCall s.loop
  yielded : (settledOf log).map (outcome T) = (yieldedOf log).flatten ++ unyielded s.loop
  noBacklog : NoBacklog (s.stream.pelIds me) s.loop

namespace ConsumeOrder

variable {s s' : StripeConsumer κ ε T} {log : List (StripeOutput ε)}

theorem init (me : κ) (stream : GroupStream κ T) :
    ConsumeOrder me (.init stream : StripeConsumer κ ε T) [] where
  order := by
    refine ⟨[], ?_, rfl⟩
    show [] = (xgroupCreate stream).entries.filter _
    symm
    rw [List.filter_eq_nil_iff]
    intro entry hentry hlt
    exact Nat.not_lt.2 (stream.bounded entry hentry).2 (of_decide_eq_true hlt)
  called := rfl
  yielded := rfl
  noBacklog := rfl

/-- Without a restart the backlog is empty. -/
theorem readBacklog (h : ConsumeOrder me s log) (hinv : ConsumeInv me s log)
    (hloop : s.loop = .xreadgroup .backlog) :
    ConsumeOrder me ⟨(s.stream.xreadgroupFrom me 0 readCount).2,
      StripeConsumer.received .backlog (s.stream.xreadgroupFrom me 0 readCount).1⟩ log := by
  obtain ⟨waiting, hwaiting, horder⟩ := h.order
  have hcalled := h.called
  have hyielded := h.yielded
  have hbacklog := h.noBacklog
  rw [hloop] at horder hcalled hyielded hbacklog
  have hnone : s.stream.pelIds me = [] := hbacklog
  have hreply : (s.stream.xreadgroupFrom me 0 readCount).1 = [] := by
    have hids := (backlog_reply hinv.stream).1
    rw [hnone, List.take_nil] at hids
    exact List.map_eq_nil_iff.1 hids
  rw [hreply]
  exact ⟨⟨waiting, hwaiting, horder⟩, hcalled, hyielded, trivial⟩

/-- The messages read are the first ones that were waiting. -/
theorem parsed_eq_take {unread : List (Nat × T)} {waiting : List (Nat × ε)}
    {parsed : List (ParsedStreamMessage ε)}
    (hwaiting : waiting.map (fun p => (p.1, (EventText.stringify p.2 : T))) = unread)
    (hsame : parsed.map (fun msg => (msg.id, some (EventText.stringify msg.data : T))) =
      (unread.take readCount).map fun msg => (msg.1, some msg.2)) :
    parsed.map (fun msg => (msg.id, msg.data)) = waiting.take readCount := by
  have hinj : Function.Injective fun p : Nat × ε =>
      (p.1, some (EventText.stringify p.2 : T)) := by
    intro a b hab
    obtain ⟨hid, htext⟩ := Prod.mk.inj hab
    exact Prod.ext hid (stringify_inj (Option.some.inj htext))
  apply List.map_injective_iff.2 hinj
  have htake : (waiting.take readCount).map (fun p => (p.1, (EventText.stringify p.2 : T))) =
      unread.take readCount := by
    rw [List.map_take, hwaiting]
  calc (parsed.map fun msg => (msg.id, msg.data)).map
        (fun p => (p.1, some (EventText.stringify p.2 : T)))
      = (unread.take readCount).map (fun msg => (msg.1, some msg.2)) := by
        rw [List.map_map]
        exact hsame
    _ = ((waiting.take readCount).map fun p => (p.1, (EventText.stringify p.2 : T))).map
        (fun msg => (msg.1, some msg.2)) := by rw [htake]
    _ = (waiting.take readCount).map
        (fun p => (p.1, some (EventText.stringify p.2 : T))) := by
        rw [List.map_map]
        rfl

/-- Reading moves events from the stream to the hand. -/
theorem readNew (h : ConsumeOrder me s log) (hinv : ConsumeInv me s log)
    (hloop : s.loop = .xreadgroup .new) (hsome : s.stream.unread ≠ []) :
    ConsumeOrder me ⟨(s.stream.xreadgroupNew me readCount).2,
        StripeConsumer.received .new
          ((s.stream.unread.take readCount).map fun msg => (msg.1, some msg.2))⟩
      (log ++ (s.stream.unread.take readCount).map fun msg => .delivered msg.1) := by
  obtain ⟨waiting, hwaiting, horder⟩ := h.order
  have hcalled := h.called
  have hyielded := h.yielded
  rw [hloop] at horder hcalled hyielded
  simp only [heldMsgs, List.map_nil, List.append_nil] at horder
  obtain ⟨hp, -, hc, hs, hy⟩ := outputs_delivered ε (s.stream.unread.take readCount)
  cases received_cases .new (new_reply hinv.stream readCount) with
  | inl hempty =>
    -- there is something to read
    obtain ⟨hnil, -⟩ := hempty
    cases List.take_eq_nil_iff.1 (List.map_eq_nil_iff.1 hnil) with
    | inl hzero => cases hzero
    | inr hnone => exact absurd hnone hsome
  | inr hread =>
    obtain ⟨parsed, hnext, -, -, hsame⟩ := hread
    have hhand := parsed_eq_take hwaiting hsame
    rw [hnext]
    refine ⟨⟨waiting.drop readCount, ?_, ?_⟩, ?_, ?_, rfl⟩
    · rw [List.map_drop, hwaiting]
      exact (GroupStream.unread_xreadgroupNew s.stream me readCount).symm
    · show _ = _ ++ parsed.map (fun msg => (msg.id, msg.data)) ++ _
      rw [producedOf_append, settledOf_append, hp, hs, List.append_nil, List.append_nil, horder,
        hhand, List.append_assoc, List.take_append_drop]
    · rw [calledOf_append, settledOf_append, hc, hs, List.append_nil, List.append_nil, hcalled]
      rfl
    · rw [yieldedOf_append, settledOf_append, hy, hs, List.append_nil, List.append_nil, hyielded]
      rfl

/-- Deleting messages in hand leaves the waiting ones alone. -/
theorem xackdel (h : ConsumeOrder me s log) (hinv : ConsumeInv me s log) {cursorId : Cursor}
    {event : StripeEvent ε} {stripeEvents : List (StripeEvent ε)}
    (hloop : s.loop = .processing cursorId (event :: stripeEvents) []) :
    ConsumeOrder me ⟨xAckDel s.stream ((event :: stripeEvents).map StripeEvent.id),
      .yielding cursorId (event :: stripeEvents)⟩ log := by
  obtain ⟨waiting, hwaiting, horder⟩ := h.order
  have hcalled := h.called
  have hyielded := h.yielded
  have hbacklog := h.noBacklog
  have hinHand := hinv.inHand
  rw [hloop] at horder hcalled hyielded hbacklog hinHand
  refine ⟨⟨waiting, ?_, horder⟩, hcalled, hyielded, hbacklog⟩
  -- what is deleted has been delivered
  have hcursor : cursorId = .new := hbacklog
  subst hcursor
  have hall : (event :: stripeEvents).map StripeEvent.id ++ [] = s.stream.pelIds me := hinHand
  rw [List.append_nil] at hall
  show _ = (xAckDel s.stream _).unread
  rw [unread_xAckDel, hwaiting, hall]
  symm
  rw [List.filter_eq_self]
  intro msg hmsg
  refine decide_eq_true fun hid => ?_
  have hle := (GroupStream.pelIds_bounded hid).2
  exact Nat.not_lt.2 hle (GroupStream.mem_unread.1 hmsg).2

/-- A step of the loop that leaves the stream alone: what it settles leaves the hand, and what it
    yields has settled. -/
private theorem move (h : ConsumeOrder me s log) {loop : ConsumeLoop ε}
    {out : List (StripeOutput ε)} (hproduced : producedOf out = [])
    (hheld : (heldMsgs s.loop).map (fun msg => (msg.id, msg.data)) =
      (settledOf out).map settledEvent ++ (heldMsgs loop).map fun msg => (msg.id, msg.data))
    (hcalled : runningCall s.loop ++ calledOf out =
      (settledOf out).map settledEvent ++ runningCall loop)
    (hyielded : unyielded s.loop ++ (settledOf out).map (outcome T) =
      (yieldedOf out).flatten ++ unyielded loop)
    (hbacklog : NoBacklog (s.stream.pelIds me) loop) :
    ConsumeOrder me { s with loop := loop } (log ++ out) where
  order := by
    obtain ⟨waiting, hwaiting, horder⟩ := h.order
    refine ⟨waiting, hwaiting, ?_⟩
    rw [producedOf_append, hproduced, List.append_nil, horder, hheld, settledOf_append,
      List.map_append]
    simp only [List.append_assoc]
  called := by
    rw [calledOf_append, h.called, List.append_assoc, hcalled, settledOf_append, List.map_append,
      List.append_assoc]
  yielded := by
    rw [settledOf_append, List.map_append, h.yielded, List.append_assoc, hyielded, yieldedOf_append,
      List.flatten_append, List.append_assoc]
  noBacklog := hbacklog

/-- An event is added behind those that wait. -/
private theorem produce (h : ConsumeOrder me s log) (event : ε) :
    ConsumeOrder me { s with stream := s.stream.xadd (EventText.stringify event) }
      (log ++ [.produced (s.stream.lastId + 1) event]) where
  order := by
    obtain ⟨waiting, hwaiting, horder⟩ := h.order
    refine ⟨waiting ++ [(s.stream.lastId + 1, event)], ?_, ?_⟩
    · rw [List.map_append, hwaiting]
      exact (GroupStream.unread_xadd ..).symm
    · rw [producedOf_append, settledOf_append, horder]
      show (_ ++ _) ++ [_] = (settledOf log ++ []).map settledEvent ++ _ ++ (_ ++ [_])
      rw [List.append_nil, List.append_assoc _ waiting]
  called := by
    rw [calledOf_append, settledOf_append]
    show calledOf log ++ [] = (settledOf log ++ []).map settledEvent ++ _
    rw [List.append_nil, List.append_nil, h.called]
  yielded := by
    rw [yieldedOf_append, settledOf_append]
    show (settledOf log ++ []).map _ = (yieldedOf log ++ []).flatten ++ _
    rw [List.append_nil, List.append_nil, h.yielded]
  noBacklog := h.noBacklog

/-- Every action but a crash and a restart keeps the order. -/
theorem step (h : ConsumeOrder me s log) (hinv : ConsumeInv me s log) {a : StripeAction ε}
    (hstep : s.step me a = some s') (hcrash : a ≠ .crash ∧ a ≠ .restart) :
    ConsumeOrder me s' (log ++ s.emit a) := by
  have hbacklog := h.noBacklog
  have hsteps := StripeConsumer.step_cases hstep
  generalize s.emit a = out at hsteps
  cases hsteps with
  | produce event => exact h.produce event
  | abort hloop => refine h.move rfl ?_ ?_ ?_ trivial <;> rw [hloop] <;> rfl
  | backlog hloop =>
    rw [List.append_nil]
    exact h.readBacklog hinv hloop
  | new hloop hsome => exact h.readNew hinv hloop hsome
  | timeout hloop => refine h.move rfl ?_ ?_ ?_ rfl <;> rw [hloop] <;> rfl
  | consumeEvent hloop =>
    rw [hloop] at hbacklog
    -- the message stays in hand while its call runs
    refine h.move rfl ?_ ?_ ?_ hbacklog <;> rw [hloop]
    · rfl
    · rfl
    · exact List.append_nil _
  | settle thrown hloop =>
    rw [hloop] at hbacklog
    refine h.move rfl ?_ ?_ ?_ hbacklog <;> rw [hloop] <;> rfl
  | xackdel hloop =>
    rw [List.append_nil]
    exact h.xackdel hinv hloop
  | @yield cursorId stripeEvents hloop =>
    rw [hloop] at hbacklog
    have hcursor : cursorId = .new := hbacklog
    subst hcursor
    refine h.move rfl ?_ ?_ ?_ trivial <;> rw [hloop]
    · rfl
    · rfl
    · show stripeEvents ++ [] = [stripeEvents].flatten ++ []
      rw [List.flatten_singleton]
  | crash => exact absurd rfl hcrash.1
  | restart => exact absurd rfl hcrash.2

end ConsumeOrder

/-- The loop ends only when it is aborted or crashes: it never throws. -/
theorem not_stopped_step {s s' : StripeConsumer κ ε T} {log : List (StripeOutput ε)}
    (hinv : ConsumeInv me s log) {a : StripeAction ε} (hstep : s.step me a = some s')
    (ha : a ≠ .abort ∧ a ≠ .crash) (hloop : s.loop ≠ .stopped) : s'.loop ≠ .stopped := by
  have hreceived : ∀ (cursorId : Cursor) {msgs : List (Nat × Option T)},
      (∀ msg ∈ msgs, ∃ event, (msg.1, event) ∈ producedOf log ∧
        msg.2 = some (EventText.stringify event)) →
      (StripeConsumer.received cursorId msgs : ConsumeLoop ε) ≠ .stopped := by
    intro cursorId msgs hmsgs hstop
    cases received_cases cursorId hmsgs with
    | inl hempty =>
      rw [hempty.2] at hstop
      cases hstop
    | inr hsome =>
      obtain ⟨parsed, hnext, -⟩ := hsome
      rw [hnext] at hstop
      cases hstop
  have hsteps := StripeConsumer.step_cases hstep
  generalize s.emit a = out at hsteps
  cases hsteps with
  | produce event => exact hloop
  | abort => exact absurd rfl ha.1
  | crash => exact absurd rfl ha.2
  | backlog => exact hreceived .backlog (backlog_reply hinv.stream).2
  | new => exact hreceived .new (new_reply hinv.stream readCount)
  | restart hstopped => exact absurd hstopped hloop
  | timeout => exact fun h => by cases h
  | consumeEvent => exact fun h => by cases h
  | settle => exact fun h => by cases h
  | xackdel => exact fun h => by cases h
  | yield => exact fun h => by cases h

theorem not_stopped_run {as : List (StripeAction ε)} {s : StripeConsumer κ ε T}
    {log : List (StripeOutput ε)}
    (h : run (recorded (StripeConsumer.step me) StripeConsumer.emit) (.init stream, []) as =
      some (s, log)) (has : ∀ a ∈ as, a ≠ .abort ∧ a ≠ .crash) : s.loop ≠ .stopped := by
  have hinit : ConsumeInv me (.init stream : StripeConsumer κ ε T) [] ∧
      (.init stream : StripeConsumer κ ε T).loop ≠ .stopped :=
    ⟨ConsumeInv.init me stream, fun h => by cases h⟩
  have hmeets : Meets (recorded (StripeConsumer.step me) StripeConsumer.emit)
      (fun _ a => a ≠ .abort ∧ a ≠ .crash) (.init stream, []) as := meets_of_mem has
  refine (run_invariant_of_meets (P := fun p : StripeConsumer κ ε T × List (StripeOutput ε) =>
    ConsumeInv me p.1 p.2 ∧ p.1.loop ≠ .stopped) ?_ h hmeets hinit).2
  intro p a p' hstep ha hp
  obtain ⟨hstep, hlog⟩ := recorded_eq_some.1 hstep
  rw [hlog]
  exact ⟨hp.1.step hstep, not_stopped_step hp.1 hstep ha hp.2⟩

/-- Consumption without crashes: in the order of the stream, once, and yielded once. -/
structure ConsumedOnce (s : StripeConsumer κ ε T) (log : List (StripeOutput ε)) : Prop where
  nodup : ((producedOf log).map Prod.fst).Nodup
  called : calledOf log <+: producedOf log
  /-- at most one call is running -/
  settled : calledOf log = (settledOf log).map settledEvent ++ runningCall s.loop
  /-- what is not yielded yet is in hand -/
  yielded : (settledOf log).map (outcome T) = (yieldedOf log).flatten ++ unyielded s.loop
  /-- where the loop waits for new messages, every event has been yielded -/
  complete : s.loop = .xreadgroup .new → s.stream.unread = [] →
    (yieldedOf log).flatten = (settledOf log).map (outcome T) ∧
      (settledOf log).map settledEvent = producedOf log

private theorem consumedOnce_of_inv {s : StripeConsumer κ ε T}
    {log : List (StripeOutput ε)} (hinv : ConsumeInv me s log) (h : ConsumeOrder me s log) :
    ConsumedOnce s log where
  nodup := List.pairwise_map.2 (hinv.stream.ascending.imp Nat.ne_of_lt)
  called := by
    obtain ⟨waiting, -, horder⟩ := h.order
    rw [h.called, horder, List.append_assoc]
    apply (List.prefix_append_right_inj _).2
    -- the running call is the one for the first message in hand
    cases hloop : s.loop with
    | consumeEvent cursorId stripeEvents msg msgs =>
      exact ⟨msgs.map (fun msg => (msg.id, msg.data)) ++ waiting, rfl⟩
    | _ => exact List.nil_prefix
  settled := h.called
  yielded := h.yielded
  complete := by
    intro hloop hunread
    obtain ⟨waiting, hwaiting, horder⟩ := h.order
    have hyielded := h.yielded
    rw [hloop] at horder hyielded
    rw [hunread] at hwaiting
    rw [List.map_eq_nil_iff.1 hwaiting] at horder
    constructor
    · rw [hyielded]
      exact (List.append_nil _).symm
    · rw [horder]
      exact ((List.append_nil _).trans (List.append_nil _)).symm

theorem consumeOrder_run {as : List (StripeAction ε)} {s : StripeConsumer κ ε T}
    {log : List (StripeOutput ε)}
    (h : run (recorded (StripeConsumer.step me) StripeConsumer.emit) (.init stream, []) as =
      some (s, log)) (hcrash : ∀ a ∈ as, a ≠ .crash ∧ a ≠ .restart) : ConsumeOrder me s log := by
  have hinit : ConsumeInv me (.init stream : StripeConsumer κ ε T) [] ∧
      ConsumeOrder me (.init stream : StripeConsumer κ ε T) [] :=
    ⟨ConsumeInv.init me stream, ConsumeOrder.init me stream⟩
  have hmeets : Meets (recorded (StripeConsumer.step me) StripeConsumer.emit)
      (fun _ a => a ≠ .crash ∧ a ≠ .restart) (.init stream, []) as := meets_of_mem hcrash
  refine (run_invariant_of_meets (P := fun p : StripeConsumer κ ε T × List (StripeOutput ε) =>
    ConsumeInv me p.1 p.2 ∧ ConsumeOrder me p.1 p.2) ?_ h hmeets hinit).2
  intro p a p' hstep ha hp
  obtain ⟨hstep, hlog⟩ := recorded_eq_some.1 hstep
  rw [hlog]
  exact ⟨hp.1.step hstep, hp.2.step hp.1 hstep ha⟩

/-! ## After a crash -/

/-- What happens after a crash, `log` being the outputs since then: `old` are the IDs delivered
    before, `first` the events delivered and not deleted. -/
structure RedeliverInv (me : κ) (before : List (StripeOutput ε)) (first : List (Nat × ε))
    (s : StripeConsumer κ ε T) (log : List (StripeOutput ε)) : Prop where
  inv : ConsumeInv me s (before ++ log)
  pending : ∀ p ∈ first, p.1 ∈ s.stream.pelIds me ∨ ∃ thrown, (p.1, p.2, thrown) ∈ settledOf log
  /-- nothing new is delivered earlier -/
  delivered : deliveredOf log ≠ [] → ∀ p ∈ first, ∃ thrown, (p.1, p.2, thrown) ∈ settledOf log
  done : ∀ event ∈ doneEvents s.loop, ∃ thrown, (event.id, event.data, thrown) ∈ settledOf log
  called : ∀ l₁ id event l₂, log = l₁ ++ .called id event :: l₂ → id ∉ deliveredOf before →
    ∀ p ∈ first, ∃ thrown, (p.1, p.2, thrown) ∈ settledOf l₁

/-- An element of two lists in a row is in the first or in the second. -/
private theorem append_eq_append_cons {α : Type} {a b l₁ l₂ : List α} {x : α}
    (h : a ++ b = l₁ ++ x :: l₂) :
    (∃ l, a = l₁ ++ x :: l) ∨ ∃ l, l₁ = a ++ l ∧ b = l ++ x :: l₂ := by
  rcases List.append_eq_append_iff.1 h with ⟨l, hl₁, hb⟩ | ⟨l, ha, hx⟩
  · exact .inr ⟨l, hl₁, hb⟩
  · cases l with
    | nil => exact .inr ⟨[], by rw [ha, List.append_nil, List.append_nil], hx.symm⟩
    | cons y l =>
      obtain ⟨rfl, -⟩ := List.cons.inj hx
      exact .inl ⟨l, ha⟩

namespace RedeliverInv

variable {before log : List (StripeOutput ε)} {first : List (Nat × ε)}
  {s s' : StripeConsumer κ ε T}

/-- The outputs of a step are added. -/
private theorem extend (h : RedeliverInv me before first s log) {out : List (StripeOutput ε)}
    (hinv : ConsumeInv me s' (before ++ (log ++ out)))
    (hpending : ∀ p ∈ first, p.1 ∈ s.stream.pelIds me → p.1 ∈ s'.stream.pelIds me ∨
      ∃ thrown, (p.1, p.2, thrown) ∈ settledOf log)
    (hdelivered : deliveredOf out ≠ [] → s.stream.pelIds me = [])
    (hdone : ∀ event ∈ doneEvents s'.loop, event ∈ doneEvents s.loop ∨
      ∃ thrown, (event.id, event.data, thrown) ∈ settledOf out)
    (hcalled : ∀ call ∈ calledOf out, call.1 ∈ s.stream.pelIds me) :
    RedeliverInv me before first s' (log ++ out) where
  inv := hinv
  pending := by
    intro p hp
    rw [settledOf_append]
    have hor : p.1 ∈ s'.stream.pelIds me ∨ ∃ thrown, (p.1, p.2, thrown) ∈ settledOf log :=
      (h.pending p hp).elim (hpending p hp) .inr
    refine hor.imp_right fun hsettled => ?_
    obtain ⟨thrown, hsettled⟩ := hsettled
    exact ⟨thrown, List.mem_append_left _ hsettled⟩
  delivered := by
    intro hne p hp
    have hsettled : ∃ thrown, (p.1, p.2, thrown) ∈ settledOf log := by
      by_cases hout : deliveredOf out = []
      · rw [deliveredOf_append, hout, List.append_nil] at hne
        exact h.delivered hne p hp
      · -- new messages are read when nothing is pending
        have hnone := hdelivered hout
        refine (h.pending p hp).resolve_left fun hmem => ?_
        rw [hnone] at hmem
        cases hmem
    obtain ⟨thrown, hsettled⟩ := hsettled
    exact ⟨thrown, by rw [settledOf_append]; exact List.mem_append_left _ hsettled⟩
  done := by
    intro event hevent
    rw [settledOf_append]
    cases hdone event hevent with
    | inl hold =>
      obtain ⟨thrown, hsettled⟩ := h.done event hold
      exact ⟨thrown, List.mem_append_left _ hsettled⟩
    | inr hnew =>
      obtain ⟨thrown, hsettled⟩ := hnew
      exact ⟨thrown, List.mem_append_right _ hsettled⟩
  called := by
    intro l₁ id event l₂ heq hid p hp
    cases append_eq_append_cons heq with
    | inl hold =>
      obtain ⟨l, hl⟩ := hold
      exact h.called l₁ id event l hl hid p hp
    | inr hnew =>
      obtain ⟨l, rfl, hout⟩ := hnew
      -- the call is for a pending message, and this one was delivered after the crash
      have hmem : (id, event) ∈ calledOf out := by
        rw [hout, calledOf_append]
        exact List.mem_append_right _ List.mem_cons_self
      have hdel := (h.inv.stream.pending id (hcalled _ hmem)).1
      rw [deliveredOf_append, List.mem_append] at hdel
      have hsettled := h.delivered (List.ne_nil_of_mem (hdel.resolve_left hid)) p hp
      obtain ⟨thrown, hsettled⟩ := hsettled
      exact ⟨thrown, by rw [settledOf_append]; exact List.mem_append_left _ hsettled⟩

/-- A step that leaves the stream alone. -/
private theorem move (h : RedeliverInv me before first s log) {loop : ConsumeLoop ε}
    {out : List (StripeOutput ε)}
    (hinv : ConsumeInv me { s with loop := loop } (before ++ (log ++ out)))
    (hdelivered : deliveredOf out = [])
    (hcalled : ∀ call ∈ calledOf out, call.1 ∈ s.stream.pelIds me)
    (hdone : ∀ event ∈ doneEvents loop, event ∈ doneEvents s.loop ∨
      ∃ thrown, (event.id, event.data, thrown) ∈ settledOf out) :
    RedeliverInv me before first { s with loop := loop } (log ++ out) :=
  h.extend hinv (fun _ _ hmem => .inl hmem) (fun hne => absurd hdelivered hne) hdone hcalled

/-- A step that leaves the stream alone, shows nothing of the messages and leaves none in hand. -/
private theorem idle (h : RedeliverInv me before first s log) {loop : ConsumeLoop ε}
    {out : List (StripeOutput ε)}
    (hinv : ConsumeInv me { s with loop := loop } (before ++ (log ++ out)))
    (hdelivered : deliveredOf out = []) (hcalled : calledOf out = [])
    (hdone : doneEvents loop = []) :
    RedeliverInv me before first { s with loop := loop } (log ++ out) := by
  apply h.move hinv hdelivered
  · rw [hcalled]
    exact fun _ hcall => absurd hcall List.not_mem_nil
  · rw [hdone]
    exact fun _ hevent => absurd hevent List.not_mem_nil

/-- What a read of the backlog leaves pending is what was. -/
private theorem readBacklog (h : RedeliverInv me before first s log)
    (hinv : ConsumeInv me ⟨(s.stream.xreadgroupFrom me 0 readCount).2,
      StripeConsumer.received .backlog (s.stream.xreadgroupFrom me 0 readCount).1⟩
      (before ++ (log ++ []))) :
    RedeliverInv me before first ⟨(s.stream.xreadgroupFrom me 0 readCount).2,
      StripeConsumer.received .backlog (s.stream.xreadgroupFrom me 0 readCount).1⟩ (log ++ []) := by
  obtain ⟨hids, hreply⟩ := backlog_reply h.inv.stream
  obtain ⟨-, -, hdone⟩ := received_inHand .backlog hreply hids
  refine h.extend hinv ?_ (fun hne => absurd rfl hne) ?_ fun _ hcall => absurd hcall List.not_mem_nil
  · intro p _ hmem
    rw [GroupStream.pelIds_xreadgroupFrom]
    exact .inl hmem
  · intro event hevent
    rw [hdone] at hevent
    cases hevent

/-- New messages are read when nothing is pending. -/
private theorem readNew (h : RedeliverInv me before first s log)
    (hloop : s.loop = .xreadgroup .new)
    (hinv : ConsumeInv me ⟨(s.stream.xreadgroupNew me readCount).2,
        StripeConsumer.received .new
          ((s.stream.unread.take readCount).map fun msg => (msg.1, some msg.2))⟩
      (before ++ (log ++ (s.stream.unread.take readCount).map fun msg => .delivered msg.1))) :
    RedeliverInv me before first ⟨(s.stream.xreadgroupNew me readCount).2,
        StripeConsumer.received .new
          ((s.stream.unread.take readCount).map fun msg => (msg.1, some msg.2))⟩
      (log ++ (s.stream.unread.take readCount).map fun msg => .delivered msg.1) := by
  have hempty := h.inv.noPending hloop
  obtain ⟨-, -, hdone⟩ :=
    received_inHand .new (new_reply h.inv.stream readCount) (h.inv.taken_new hloop)
  obtain ⟨-, -, hc, -, -⟩ := outputs_delivered ε (s.stream.unread.take readCount)
  refine h.extend hinv ?_ (fun _ => hempty) ?_ ?_
  · intro p _ hmem
    rw [hempty] at hmem
    cases hmem
  · intro event hevent
    rw [hdone] at hevent
    cases hevent
  · rw [hc]
    exact fun _ hcall => absurd hcall List.not_mem_nil

/-- What is deleted has settled since the crash. -/
private theorem xackdel (h : RedeliverInv me before first s log)
    (hfirst : ∀ p ∈ first, p ∈ producedOf before) {cursorId : Cursor} {event : StripeEvent ε}
    {stripeEvents : List (StripeEvent ε)}
    (hloop : s.loop = .processing cursorId (event :: stripeEvents) [])
    (hinv : ConsumeInv me ⟨xAckDel s.stream ((event :: stripeEvents).map StripeEvent.id),
      .yielding cursorId (event :: stripeEvents)⟩ (before ++ (log ++ []))) :
    RedeliverInv me before first ⟨xAckDel s.stream ((event :: stripeEvents).map StripeEvent.id),
      .yielding cursorId (event :: stripeEvents)⟩ (log ++ []) := by
  have hdone := h.done
  have hproduced := h.inv.done
  rw [hloop] at hdone hproduced
  refine h.extend hinv ?_ (fun hne => absurd rfl hne)
    (fun _ hevent => absurd hevent List.not_mem_nil) fun _ hcall => absurd hcall List.not_mem_nil
  intro p hp hmem
  by_cases hdel : p.1 ∈ (event :: stripeEvents).map StripeEvent.id
  · obtain ⟨e, he, hid⟩ := List.mem_map.1 hdel
    obtain ⟨thrown, hsettled⟩ := hdone e he
    -- an ID has one event
    have hsame : (e.id, e.data) = p := by
      have hnd : ((producedOf (before ++ log)).map Prod.fst).Nodup :=
        List.pairwise_map.2 (h.inv.stream.ascending.imp Nat.ne_of_lt)
      have hp' : p ∈ producedOf (before ++ log) := by
        rw [producedOf_append]
        exact List.mem_append_left _ (hfirst p hp)
      exact List.inj_on_of_nodup_map hnd (hproduced e he).1 hp' hid
    rw [← hsame]
    exact .inr ⟨thrown, hsettled⟩
  · left
    show p.1 ∈ (xAckDel s.stream _).pelIds me
    rw [pelIds_xAckDel]
    exact List.mem_filter.2 ⟨hmem, decide_eq_true hdel⟩

/-- Every action keeps the invariant. -/
theorem step (h : RedeliverInv me before first s log)
    (hfirst : ∀ p ∈ first, p ∈ producedOf before) {a : StripeAction ε}
    (hstep : s.step me a = some s') : RedeliverInv me before first s' (log ++ s.emit a) := by
  have hinv := h.inv.step hstep
  rw [List.append_assoc] at hinv
  have hsteps := StripeConsumer.step_cases hstep
  generalize s.emit a = out at hinv hsteps
  cases hsteps with
  | produce event =>
    exact h.extend hinv (fun _ _ hmem => .inl hmem) (fun hne => absurd rfl hne)
      (fun _ hevent => .inl hevent) fun _ hcall => absurd hcall List.not_mem_nil
  | abort => exact h.idle hinv rfl rfl rfl
  | backlog => exact h.readBacklog hinv
  | new hloop => exact h.readNew hloop hinv
  | timeout => exact h.idle hinv rfl rfl rfl
  | @consumeEvent cursorId stripeEvents msg msgs hloop =>
    have hpending := pending_of_inHand h.inv.inHand
    rw [hloop] at hpending
    refine h.move hinv rfl ?_ ?_
    · intro call hcall
      rw [List.mem_singleton.1 hcall]
      exact hpending msg List.mem_cons_self
    · intro event hevent
      rw [hloop]
      exact .inl hevent
  | settle thrown hloop =>
    refine h.move hinv rfl (fun _ hcall => absurd hcall List.not_mem_nil) ?_
    intro event hevent
    rw [hloop]
    cases List.mem_append.1 hevent with
    | inl hold => exact .inl hold
    | inr hnew =>
      rw [List.mem_singleton.1 hnew]
      exact .inr ⟨thrown, List.mem_singleton.2 rfl⟩
  | xackdel hloop => exact h.xackdel hfirst hloop hinv
  | yield => exact h.idle hinv rfl rfl rfl
  | crash => exact h.idle hinv rfl rfl rfl
  | restart => exact h.idle hinv rfl rfl rfl

end RedeliverInv

/-- After a crash no new event is consumed before each event that was delivered and not deleted. -/
theorem redelivered_first {s t : StripeConsumer κ ε T} {before log : List (StripeOutput ε)}
    (hinv : ConsumeInv me s before) (hstopped : s.loop = .stopped) {bs : List (StripeAction ε)}
    (h : run (recorded (StripeConsumer.step me) StripeConsumer.emit) (s, []) bs = some (t, log)) :
    ∀ l₁ id event l₂, log = l₁ ++ .called id event :: l₂ → id ∉ deliveredOf before →
      ∀ p ∈ producedOf before, p.1 ∈ deliveredOf before →
        (p.1, EventText.stringify p.2) ∈ s.stream.entries →
          ∃ thrown, (p.1, p.2, thrown) ∈ settledOf l₁ := by
  classical
  have hfirst : ∀ p, p ∈ (producedOf before).filter (fun p => p.1 ∈ deliveredOf before ∧
      (p.1, (EventText.stringify p.2 : T)) ∈ s.stream.entries) ↔ p ∈ producedOf before ∧
        p.1 ∈ deliveredOf before ∧ (p.1, (EventText.stringify p.2 : T)) ∈ s.stream.entries := by
    intro p
    rw [List.mem_filter, decide_eq_true_eq]
  generalize (producedOf before).filter (fun p => p.1 ∈ deliveredOf before ∧
    (p.1, (EventText.stringify p.2 : T)) ∈ s.stream.entries) = first at hfirst
  have hinit : RedeliverInv me before first s [] := by
    refine ⟨?_, ?_, fun hne => absurd rfl hne, ?_, ?_⟩
    · rw [List.append_nil]
      exact hinv
    · intro p hp
      obtain ⟨-, hdel, hentry⟩ := (hfirst p).1 hp
      exact .inl (hinv.stream.redelivered p.1 hdel _ hentry)
    · intro event hevent
      rw [hstopped] at hevent
      cases hevent
    · intro l₁ id event l₂ hnil
      cases l₁ <;> cases hnil
  have hrun : RedeliverInv me before first t log := by
    refine run_invariant (P := fun p : StripeConsumer κ ε T × List (StripeOutput ε) =>
      RedeliverInv me before first p.1 p.2) ?_ h hinit
    intro p a p' hstep hp
    obtain ⟨hstep, hlog⟩ := recorded_eq_some.1 hstep
    rw [hlog]
    exact hp.step (fun q hq => ((hfirst q).1 hq).1) hstep
  intro l₁ id event l₂ heq hid p hp hdel hentry
  exact hrun.called l₁ id event l₂ heq hid p ((hfirst p).2 ⟨hp, hdel, hentry⟩)

/-- Every event is deleted only after its call has settled; new messages are read only when none
    is pending; without crashes events are consumed and yielded once and in order, and the loop
    does not throw; and after a crash the pending events are consumed before any new one. -/
theorem stripe_events_consumed {as : List (StripeAction ε)} {s : StripeConsumer κ ε T}
    {log : List (StripeOutput ε)}
    (h : run (recorded (StripeConsumer.step me) StripeConsumer.emit) (.init stream, []) as =
      some (s, log)) :
    (∀ p ∈ producedOf log, (p.1, EventText.stringify p.2) ∈ s.stream.entries ∨
      ∃ thrown, (p.1, p.2, thrown) ∈ settledOf log) ∧
    (s.loop = .xreadgroup .new → s.stream.pelIds me = []) ∧
    ((∀ a ∈ as, a ≠ .crash ∧ a ≠ .restart) → ConsumedOnce s log ∧
      ((∀ a ∈ as, a ≠ .abort) → s.loop ≠ .stopped)) ∧
    (s.loop = .stopped → ∀ bs t log',
      run (recorded (StripeConsumer.step me) StripeConsumer.emit) (s, []) bs = some (t, log') →
      ∀ l₁ id event l₂, log' = l₁ ++ .called id event :: l₂ → id ∉ deliveredOf log →
      ∀ p ∈ producedOf log, p.1 ∈ deliveredOf log →
        (p.1, EventText.stringify p.2) ∈ s.stream.entries →
          ∃ thrown, (p.1, p.2, thrown) ∈ settledOf l₁) := by
  have hinv := consumeInv_run h
  refine ⟨hinv.stream.kept, ?_, ?_, ?_⟩
  · intro hloop
    have hinHand := hinv.inHand
    rw [hloop] at hinHand
    exact hinHand
  · intro hcrash
    refine ⟨consumedOnce_of_inv hinv (consumeOrder_run h hcrash), fun habort => ?_⟩
    exact not_stopped_run h fun a ha => ⟨habort a ha, (hcrash a ha).1⟩
  · intro hstopped bs t log' hrun
    exact redelivered_first hinv hstopped hrun

end Stream

/-- Events given by their type and a number. -/
abbrev TypedEvent : Type := String × Nat

instance : EventText TypedEvent TypedEvent where
  type := Prod.fst
  stringify := id
  parse := some
  parse_stringify := fun _ => rfl

/-- A stream with one old entry. -/
def oldStream : GroupStream Unit TypedEvent := GroupStream.empty.xadd ("invoice.paid", 1)

/-- Two events are consumed, and the handler of the second one throws. -/
def consumeTwo : List (StripeAction TypedEvent) :=
  [.xreadgroup, .timeout, .yield, .produce ("invoice.paid", 2), .xreadgroup, .consumeEvent,
    .produce ("customer.deleted", 3), .settle none, .xackdel, .yield, .xreadgroup, .consumeEvent,
    .settle (some "timeout"), .xackdel, .yield]

/-- The process goes down while the first event is consumed. -/
def crashWhilePending : List (StripeAction TypedEvent) :=
  [.xreadgroup, .produce ("invoice.paid", 2), .xreadgroup, .consumeEvent,
    .produce ("customer.deleted", 3), .crash]

/-- It starts again. -/
def consumeAfterRestart : List (StripeAction TypedEvent) :=
  [.restart, .xreadgroup, .consumeEvent, .settle none, .xackdel, .yield, .xreadgroup, .xreadgroup,
    .consumeEvent]

/-- The first event is yielded without an error and the second one with it. With a crash the first
    event, which was pending then, is consumed again before the second one is. -/
theorem stripe_events_consumed_consumeTwo :
    (∃ s log, run (recorded (StripeConsumer.step ()) StripeConsumer.emit) (.init oldStream, [])
        consumeTwo = some (s, log) ∧
      yieldedOf log = [[], [⟨2, ("invoice.paid", 2), none⟩], [⟨3, ("customer.deleted", 3),
        some "an error occurred while processing event \"customer.deleted\" with message ID \"3\":\ntimeout"⟩]] ∧
      ConsumedOnce s log) ∧
    ∃ s log t l₁, run (recorded (StripeConsumer.step ()) StripeConsumer.emit) (.init oldStream, [])
        crashWhilePending = some (s, log) ∧
      run (recorded (StripeConsumer.step ()) StripeConsumer.emit) (s, []) consumeAfterRestart =
        some (t, l₁ ++ [.called 3 ("customer.deleted", 3)]) ∧
      ∃ thrown, (2, ("invoice.paid", 2), thrown) ∈ settledOf l₁ := by
  constructor
  · refine ⟨_, _, rfl, rfl, ?_⟩
    have h : run (recorded (StripeConsumer.step ()) StripeConsumer.emit) (.init oldStream, [])
      consumeTwo = some _ := rfl
    exact ((stripe_events_consumed h).2.2.1 (by decide)).1
  · have h : run (recorded (StripeConsumer.step ()) StripeConsumer.emit) (.init oldStream, [])
      crashWhilePending = some _ := rfl
    refine ⟨_, _, _, [.called 2 ("invoice.paid", 2), .settled 2 ("invoice.paid", 2) none,
      .yielded [⟨2, ("invoice.paid", 2), none⟩], .delivered 3], h, rfl, ?_⟩
    exact (stripe_events_consumed h).2.2.2 rfl consumeAfterRestart _ _ rfl _ 3
      ("customer.deleted", 3) [] rfl (by decide) (2, ("invoice.paid", 2)) (by decide) (by decide)
      (by decide)

end BlockFeed.Spec
