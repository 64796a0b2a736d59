import BlockFeed.ForStd.Transition
import BlockFeed.Native.RedisStream

/-!
# The backlog comes before new messages

`LoopInv` ties a position in `Subscribe` to the consumer's PEL: at most one batch is pending,
nothing is pending when new messages are read, and the handler always sees the whole PEL. It
mentions one consumer only, and each piece of `Subscribe` keeps it, so the services that
subscribe use it for their own loops.

`subscribe_backlogFirst` is the result for a consumer with an arbitrary handler.
-/

namespace BlockFeed.Spec

open BlockFeed.Native Redis Transition

section Loop

variable {κ α δ : Type} [DecidableEq κ]

/-- What a position of the loop says about the IDs that are pending for its consumer. -/
def LoopAt (pending : List Nat) : Subscriber δ → Prop
  | .processBacklogMsgs cursorId => cursorId = 0 ∨ ∀ id ∈ pending, id ≤ cursorId
  | .processNewMsgs => pending = []
  | .handler msgs _ =>
    pending ⊆ msgs.map ParsedStreamMessage.id ∧
      (msgs.map ParsedStreamMessage.id).Pairwise (· < ·)
  | .stopped => True

/-- The messages that the handler works on. -/
def handed : Subscriber δ → List (ParsedStreamMessage δ)
  | .handler msgs _ => msgs
  | _ => []

/-- The invariant of one consumer's loop. -/
structure LoopInv (stream : GroupStream κ α) (c : κ) (count : Nat) (loop : Subscriber δ) :
    Prop where
  /-- at most one batch is pending -/
  pel_le : (stream.pelIds c).length ≤ count
  at_loop : LoopAt (stream.pelIds c) loop
  /-- what the handler has was delivered -/
  handed_le : ∀ m ∈ handed loop, m.id ≤ stream.lastDelivered

theorem LoopAt.mono {pending pending' : List Nat} {loop : Subscriber δ} (h : LoopAt pending loop)
    (hsub : pending' ⊆ pending) : LoopAt pending' loop := by
  cases loop with
  | processBacklogMsgs cursorId => exact h.imp_right fun hle id hid => hle id (hsub hid)
  | processNewMsgs =>
    have hnil : pending = [] := h
    rw [hnil] at hsub
    exact List.subset_nil.1 hsub
  | handler msgs isBacklogMsg => exact ⟨fun id hid => h.1 (hsub hid), h.2⟩
  | stopped => trivial

/-- Less to acknowledge and a later mark keep the invariant. -/
theorem LoopInv.of_sublist {stream stream' : GroupStream κ α} {c : κ} {count : Nat}
    {loop : Subscriber δ} (h : LoopInv stream c count loop)
    (hsub : (stream'.pelIds c).Sublist (stream.pelIds c))
    (hmark : stream.lastDelivered ≤ stream'.lastDelivered) : LoopInv stream' c count loop where
  pel_le := Nat.le_trans hsub.length_le h.pel_le
  at_loop := h.at_loop.mono hsub.subset
  handed_le := fun m hm => Nat.le_trans (h.handed_le m hm) hmark

theorem loopInv_init {c : κ} {count : Nat} :
    LoopInv (GroupStream.empty : GroupStream κ α) c count (.start : Subscriber δ) where
  pel_le := Nat.zero_le _
  at_loop := .inl rfl
  handed_le := by simp [handed, Subscriber.start]

/-- A restart needs nothing but the bound on the PEL. -/
theorem LoopInv.start {stream : GroupStream κ α} {c : κ} {count : Nat} {loop : Subscriber δ}
    (h : LoopInv stream c count loop) : LoopInv stream c count (.start : Subscriber δ) where
  pel_le := h.pel_le
  at_loop := .inl rfl
  handed_le := by simp [handed, Subscriber.start]

theorem LoopInv.xadd {stream : GroupStream κ α} {c : κ} {count : Nat} {loop : Subscriber δ}
    (h : LoopInv stream c count loop) (v : α) : LoopInv (stream.xadd v) c count loop :=
  h.of_sublist (List.Sublist.refl _) (Nat.le_refl _)

theorem LoopInv.xAckDel {stream : GroupStream κ α} {c : κ} {count : Nat} {loop : Subscriber δ}
    (h : LoopInv stream c count loop) (ids : List Nat) :
    LoopInv (Native.xAckDel stream ids) c count loop := by
  apply h.of_sublist
  · rw [pelIds_xAckDel]
    exact List.filter_sublist
  · exact Nat.le_refl _

/-- What other consumers read does not matter. -/
theorem LoopInv.other {stream : GroupStream κ α} {c d : κ} {count : Nat} {loop : Subscriber δ}
    (h : LoopInv stream c count loop) (hd : d ≠ c) (n k : Nat) :
    LoopInv (stream.xreadgroupFrom d k n).2 c count loop ∧
      LoopInv (stream.xreadgroupNew d n).2 c count loop := by
  constructor
  · apply h.of_sublist
    · rw [GroupStream.pelIds_xreadgroupFrom]
    · exact Nat.le_refl _
  · apply h.of_sublist
    · rw [GroupStream.pelIds_xreadgroupNew_ne stream hd]
    · exact GroupStream.lastDelivered_le_xreadgroupNew stream d n

/-- A batch that starts at the beginning of the PEL is the whole PEL. -/
private theorem pelIds_backlog_zero {stream : GroupStream κ α} {c : κ} {count : Nat}
    (h : (stream.pelIds c).length ≤ count) :
    ((stream.pelIds c).filter (fun id => 0 < id)).take count = stream.pelIds c := by
  have hpos : (stream.pelIds c).filter (fun id => 0 < id) = stream.pelIds c := by
    apply List.filter_eq_self.2
    intro id hid
    exact decide_eq_true (GroupStream.pelIds_bounded hid).1
  rw [hpos]
  exact List.take_of_length_le h

theorem LoopInv.readBacklog {parse : α → Option δ} {stream stream' : GroupStream κ α} {c : κ}
    {count cursorId : Nat} {next : Subscriber δ}
    (h : LoopInv stream c count (.processBacklogMsgs cursorId : Subscriber δ))
    (hread : Subscriber.readBacklog parse stream c count cursorId = (next, stream')) :
    LoopInv stream' c count next := by
  obtain ⟨rfl, hcases⟩ := readBacklog_cases hread
  have hids := GroupStream.ids_xreadgroupFrom stream c cursorId count
  have hpel : (stream.xreadgroupFrom c cursorId count).2.pelIds c = stream.pelIds c :=
    GroupStream.pelIds_xreadgroupFrom stream c c cursorId count
  cases hcases with
  | inl hempty =>
    obtain ⟨hnil, rfl⟩ := hempty
    by_cases h0 : cursorId = 0
    · -- nothing after `0-0`: the PEL is empty
      subst h0
      rw [hnil, pelIds_backlog_zero h.pel_le] at hids
      refine ⟨by rw [hpel]; exact h.pel_le, ?_, by simp [handed]⟩
      rw [if_pos rfl, hpel]
      exact hids.symm
    · -- nothing after the cursor: start again at `0-0`
      refine ⟨by rw [hpel]; exact h.pel_le, ?_, by simp [handed, h0]⟩
      rw [if_neg h0]
      exact .inl rfl
  | inr hsome =>
    obtain ⟨hne, hnext⟩ := hsome
    -- a reply that is not empty comes from a cursor at `0-0`
    have h0 : cursorId = 0 := by
      cases h.at_loop with
      | inl h0 => exact h0
      | inr hle =>
        have hnil : (stream.pelIds c).filter (fun id => cursorId < id) = [] := by
          apply List.filter_eq_nil_iff.2
          intro id hid hlt
          have hle' := hle id hid
          have hlt' := of_decide_eq_true hlt
          omega
        rw [hnil, List.take_nil] at hids
        exact absurd (List.map_eq_nil_iff.1 hids) hne
    subst h0
    rw [pelIds_backlog_zero h.pel_le] at hids
    cases hnext with
    | inl hstop =>
      subst hstop
      exact ⟨by rw [hpel]; exact h.pel_le, trivial, by simp [handed]⟩
    | inr hmsgs =>
      obtain ⟨msgs, rfl, hparse⟩ := hmsgs
      have hmsgIds := (ids_parseMessages hparse).trans hids
      refine ⟨by rw [hpel]; exact h.pel_le, ?_, ?_⟩
      · rw [hpel]
        show stream.pelIds c ⊆ msgs.map ParsedStreamMessage.id ∧ _
        rw [hmsgIds]
        exact ⟨List.Subset.refl _, GroupStream.pelIds_sorted stream c⟩
      · intro m hm
        have hmem : m.id ∈ stream.pelIds c := hmsgIds ▸ List.mem_map_of_mem hm
        exact (GroupStream.pelIds_bounded hmem).2

theorem LoopInv.readNew {parse : α → Option δ} {stream stream' : GroupStream κ α} {c : κ}
    {count : Nat} {next : Subscriber δ}
    (h : LoopInv stream c count (.processNewMsgs : Subscriber δ))
    (hread : Subscriber.readNew parse stream c count = some (next, stream')) :
    LoopInv stream' c count next := by
  obtain ⟨rfl, -, hnext⟩ := readNew_cases hread
  have hnil : stream.pelIds c = [] := h.at_loop
  -- the new batch is all that is pending
  have hpel : (stream.xreadgroupNew c count).2.pelIds c =
      (stream.unread.take count).map Prod.fst := by
    rw [GroupStream.pelIds_xreadgroupNew_self, hnil, List.nil_append]
  have hlen : ((stream.xreadgroupNew c count).2.pelIds c).length ≤ count := by
    rw [hpel, List.length_map]
    exact List.length_take_le _ _
  cases hnext with
  | inl hstop =>
    subst hstop
    exact ⟨hlen, trivial, by simp [handed]⟩
  | inr hmsgs =>
    obtain ⟨msgs, rfl, hparse⟩ := hmsgs
    have hmsgIds : msgs.map ParsedStreamMessage.id =
        (stream.xreadgroupNew c count).2.pelIds c := by
      rw [ids_parseMessages hparse, hpel, List.map_map]
      rfl
    refine ⟨hlen, ?_, ?_⟩
    · show _ ⊆ msgs.map ParsedStreamMessage.id ∧ _
      rw [hmsgIds]
      exact ⟨List.Subset.refl _, GroupStream.pelIds_sorted _ c⟩
    · intro m hm
      have hmem : m.id ∈ (stream.xreadgroupNew c count).2.pelIds c :=
        hmsgIds ▸ List.mem_map_of_mem hm
      exact (GroupStream.pelIds_bounded hmem).2

private theorem le_getLast_id {msgs : List (ParsedStreamMessage δ)}
    (h : (msgs.map ParsedStreamMessage.id).Pairwise (· < ·)) {id : Nat}
    (hid : id ∈ msgs.map ParsedStreamMessage.id) :
    id ≤ msgs.getLast?.elim 0 ParsedStreamMessage.id := by
  rcases List.eq_nil_or_concat msgs with rfl | ⟨init, last, rfl⟩
  · cases hid
  · -- all others come before the last one
    rw [List.concat_eq_append, List.map_append, List.pairwise_append] at h
    rw [List.concat_eq_append, List.map_append, List.mem_append] at hid
    rw [List.concat_eq_append, List.getLast?_concat]
    cases hid with
    | inl hid => exact Nat.le_of_lt (h.2.2 id hid last.id (List.mem_singleton.2 rfl))
    | inr hid => exact Nat.le_of_eq (List.mem_singleton.1 hid)

/-- When the handler returns, what it left behind is at or below the next cursor. -/
theorem LoopInv.handled {stream : GroupStream κ α} {c : κ} {count : Nat}
    {msgs : List (ParsedStreamMessage δ)} {isBacklogMsg : Bool}
    (h : LoopInv stream c count (.handler msgs isBacklogMsg)) :
    LoopInv stream c count (.handled msgs isBacklogMsg : Subscriber δ) := by
  obtain ⟨hsub, hsorted⟩ := h.at_loop
  refine ⟨h.pel_le, ?_, ?_⟩
  · -- after new messages the backlog is read from `0-0`
    cases isBacklogMsg with
    | true => exact .inr fun id hid => le_getLast_id hsorted (hsub hid)
    | false => exact .inl rfl
  · cases isBacklogMsg with
    | true => simp [handed, Subscriber.handled]
    | false => simp [handed, Subscriber.handled]

/-! ### The messages of the handler -/

/-- The messages of the handler are pending for its consumer and still in the stream. -/
def Handed (parse : α → Option δ) (stream : GroupStream κ α) (c : κ) (loop : Subscriber δ) :
    Prop :=
  ∀ m ∈ handed loop, m.id ∈ stream.pelIds c ∧
    ∃ v, (m.id, v) ∈ stream.entries ∧ parse v = some m.data

theorem handed_start (parse : α → Option δ) (stream : GroupStream κ α) (c : κ) :
    Handed parse stream c (.start : Subscriber δ) := by
  simp [Handed, handed, Subscriber.start]

theorem handed_handled (parse : α → Option δ) (stream : GroupStream κ α) (c : κ)
    (msgs : List (ParsedStreamMessage δ)) (isBacklogMsg : Bool) :
    Handed parse stream c (.handled msgs isBacklogMsg : Subscriber δ) := by
  cases isBacklogMsg with
  | true => simp [Handed, handed, Subscriber.handled]
  | false => simp [Handed, handed, Subscriber.handled]

theorem handed_readBacklog {parse : α → Option δ} {stream stream' : GroupStream κ α} {c : κ}
    {count cursorId : Nat} {next : Subscriber δ}
    (hread : Subscriber.readBacklog parse stream c count cursorId = (next, stream')) :
    Handed parse stream' c next := by
  obtain ⟨rfl, hcases⟩ := readBacklog_cases hread
  intro m hm
  cases hcases with
  | inl hempty =>
    obtain ⟨-, rfl⟩ := hempty
    split at hm
    · cases hm
    · cases hm
  | inr hsome =>
    cases hsome.2 with
    | inl hstop =>
      subst hstop
      cases hm
    | inr hmsgs =>
      -- a message parses only with data, so its entry is still there
      obtain ⟨msgs, rfl, hparse⟩ := hmsgs
      obtain ⟨v, hv, hdata⟩ := mem_parseMessages hparse hm
      obtain ⟨p, hp, heq⟩ := List.mem_map.1 hv
      obtain ⟨hid, hget⟩ := Prod.mk.inj heq
      have hback := GroupStream.mem_backlog hp
      rw [GroupStream.pelIds_xreadgroupFrom, GroupStream.entries_xreadgroupFrom]
      refine ⟨GroupStream.mem_pelIds.2 ⟨p, hback.1, hback.2.1, hid⟩, v, ?_, hdata⟩
      rw [hid] at hget
      exact GroupStream.get?_eq_some.1 hget

theorem handed_readNew {parse : α → Option δ} {stream stream' : GroupStream κ α} {c : κ}
    {count : Nat} {next : Subscriber δ}
    (hread : Subscriber.readNew parse stream c count = some (next, stream')) :
    Handed parse stream' c next := by
  obtain ⟨rfl, -, hnext⟩ := readNew_cases hread
  intro m hm
  cases hnext with
  | inl hstop =>
    subst hstop
    cases hm
  | inr hmsgs =>
    -- it comes from an unread entry, which is now pending
    obtain ⟨msgs, rfl, hparse⟩ := hmsgs
    obtain ⟨v, hv, hdata⟩ := mem_parseMessages hparse hm
    obtain ⟨e, he, heq⟩ := List.mem_map.1 hv
    obtain ⟨hid, hval⟩ := Prod.mk.inj heq
    have hmem := (GroupStream.mem_unread.1 (List.mem_of_mem_take he)).1
    rw [GroupStream.pelIds_xreadgroupNew_self, List.mem_append]
    refine ⟨.inr (List.mem_map.2 ⟨e, he, hid⟩), v, ?_, hdata⟩
    rw [← hid, ← Option.some.inj hval]
    exact hmem

/-- Whatever keeps the entries and the PEL keeps the messages. -/
theorem Handed.mono {parse : α → Option δ} {stream stream' : GroupStream κ α} {c : κ}
    {loop : Subscriber δ} (h : Handed parse stream c loop)
    (hpel : stream.pelIds c ⊆ stream'.pelIds c) (hentries : stream.entries ⊆ stream'.entries) :
    Handed parse stream' c loop := by
  intro m hm
  obtain ⟨hid, v, hv, hdata⟩ := h m hm
  exact ⟨hpel hid, v, hentries hv, hdata⟩

/-- Acknowledging something else leaves the messages where they are. -/
theorem Handed.xAckDel {parse : α → Option δ} {stream : GroupStream κ α} {c : κ}
    {loop : Subscriber δ} (h : Handed parse stream c loop) {ids : List Nat}
    (hids : ∀ m ∈ handed loop, m.id ∉ ids) : Handed parse (Native.xAckDel stream ids) c loop := by
  intro m hm
  obtain ⟨hid, v, hv, hdata⟩ := h m hm
  have hnot := hids m hm
  rw [pelIds_xAckDel, entries_xAckDel]
  exact ⟨List.mem_filter.2 ⟨hid, decide_eq_true hnot⟩, v,
    List.mem_filter.2 ⟨hv, decide_eq_true hnot⟩, hdata⟩

end Loop

/-! ## An arbitrary handler -/

section Subscribe

variable {κ α δ : Type} [DecidableEq κ]

/-- The invariant of a consumer's run. -/
structure SubscribeInv (me : κ) (count : Nat) (s : SubscribeState κ α δ) : Prop where
  loop : LoopInv s.stream me count s.loop
  /-- what was delivered is acknowledged or pending -/
  delivered : ∀ id ∈ s.delivered, id ∈ s.acked ∨ id ∈ s.stream.pelIds me
  /-- no unread entry has been deleted -/
  unread : ∀ id, s.stream.lastDelivered < id → id ≤ s.stream.lastId →
    id ∈ s.stream.unread.map Prod.fst
  /-- a consumer that is alone in the group was given everything up to the mark -/
  alone : (∀ d, d = me) → ∀ id, 0 < id → id ≤ s.stream.lastDelivered →
    id ∈ s.acked ∨ id ∈ s.stream.pelIds me

theorem subscribeInv_init (me : κ) (count : Nat) :
    SubscribeInv me count (.init : SubscribeState κ α δ) where
  loop := loopInv_init
  delivered := by simp [SubscribeState.init]
  unread := by
    intro id hlo hhi
    exact absurd (Nat.lt_of_lt_of_le hlo hhi) (Nat.lt_irrefl _)
  alone := by
    intro _ id hpos hle
    exact absurd (Nat.lt_of_lt_of_le hpos hle) (Nat.lt_irrefl _)

omit [DecidableEq κ] in
/-- A new entry is unread. -/
private theorem unread_ids_xadd {stream : GroupStream κ α} (v : α)
    (h : ∀ id, stream.lastDelivered < id → id ≤ stream.lastId →
      id ∈ stream.unread.map Prod.fst) :
    ∀ id, stream.lastDelivered < id → id ≤ stream.lastId + 1 →
      id ∈ (stream.xadd v).unread.map Prod.fst := by
  intro id hlo hhi
  rw [GroupStream.unread_xadd, List.map_append, List.mem_append]
  by_cases hlast : id = stream.lastId + 1
  · exact .inr (List.mem_singleton.2 hlast)
  · exact .inl (h id hlo (by omega))

omit [DecidableEq κ] in
/-- A read with `>` leaves what is above the new mark unread. -/
private theorem unread_ids_xreadgroupNew {stream : GroupStream κ α} (d : κ) (n : Nat)
    (h : ∀ id, stream.lastDelivered < id → id ≤ stream.lastId →
      id ∈ stream.unread.map Prod.fst) :
    ∀ id, (stream.xreadgroupNew d n).2.lastDelivered < id → id ≤ stream.lastId →
      id ∈ (stream.xreadgroupNew d n).2.unread.map Prod.fst := by
  intro id hlo hhi
  have hmark := GroupStream.lastDelivered_le_xreadgroupNew stream d n
  obtain ⟨e, he, rfl⟩ := List.mem_map.1 (h id (by omega) hhi)
  apply List.mem_map_of_mem
  exact GroupStream.mem_unread.2 ⟨(GroupStream.mem_unread.1 he).1, hlo⟩

omit [DecidableEq κ] in
/-- Acknowledging delivered entries deletes no unread one. -/
private theorem unread_ids_xAckDel {stream : GroupStream κ α} {ids : List Nat}
    (hids : ∀ id ∈ ids, id ≤ stream.lastDelivered)
    (h : ∀ id, stream.lastDelivered < id → id ≤ stream.lastId →
      id ∈ stream.unread.map Prod.fst) :
    ∀ id, stream.lastDelivered < id → id ≤ stream.lastId →
      id ∈ (xAckDel stream ids).unread.map Prod.fst := by
  intro id hlo hhi
  obtain ⟨e, he, rfl⟩ := List.mem_map.1 (h id hlo hhi)
  rw [unread_xAckDel]
  apply List.mem_map_of_mem
  have hnot : e.1 ∉ ids := by
    intro hmem
    have hle := hids e.1 hmem
    omega
  exact List.mem_filter.2 ⟨he, decide_eq_true hnot⟩

/-- An ID that was acknowledged or pending still is after more is acknowledged. -/
private theorem acked_or_pending_xAckDel {stream : GroupStream κ α} {me : κ}
    {acked ids : List Nat} {id : Nat} (h : id ∈ acked ∨ id ∈ stream.pelIds me) :
    id ∈ acked ++ ids ∨ id ∈ (xAckDel stream ids).pelIds me := by
  rw [pelIds_xAckDel, List.mem_append]
  by_cases hids : id ∈ ids
  · exact .inl (.inr hids)
  · cases h with
    | inl h => exact .inl (.inl h)
    | inr h => exact .inr (List.mem_filter.2 ⟨h, decide_eq_true hids⟩)

/-- Acknowledging delivered entries keeps the invariant. -/
private theorem SubscribeInv.xAckDel {me : κ} {count : Nat} {s : SubscribeState κ α δ}
    (h : SubscribeInv me count s) {ids : List Nat}
    (hids : ∀ id ∈ ids, id ≤ s.stream.lastDelivered) :
    SubscribeInv me count
      { s with stream := Native.xAckDel s.stream ids, acked := s.acked ++ ids } where
  loop := h.loop.xAckDel ids
  delivered := fun id hid => acked_or_pending_xAckDel (h.delivered id hid)
  unread := unread_ids_xAckDel hids h.unread
  alone := fun honly id hpos hle => acked_or_pending_xAckDel (h.alone honly id hpos hle)

/-- The read of the backlog by the consumer itself. -/
private theorem SubscribeInv.readBacklog {parse : α → Option δ} {me : κ} {count cursorId : Nat}
    {s : SubscribeState κ α δ} (h : SubscribeInv me count s)
    (hloop : s.loop = .processBacklogMsgs cursorId) {next : Subscriber δ}
    {stream' : GroupStream κ α}
    (hread : Subscriber.readBacklog parse s.stream me count cursorId = (next, stream')) :
    SubscribeInv me count { s with stream := stream', loop := next } := by
  have hinv := h.loop
  rw [hloop] at hinv
  have hnext := hinv.readBacklog hread
  obtain ⟨rfl, -⟩ := readBacklog_cases hread
  -- the read changes delivery counts, not what is pending
  have hpel := GroupStream.pelIds_xreadgroupFrom s.stream me me cursorId count
  refine ⟨hnext, ?_, h.unread, ?_⟩
  · rw [hpel]
    exact h.delivered
  · rw [hpel]
    exact h.alone

/-- The read of new messages by the consumer itself. -/
private theorem SubscribeInv.readNew {parse : α → Option δ} {me : κ} {count : Nat}
    {s : SubscribeState κ α δ} (h : SubscribeInv me count s)
    (hloop : s.loop = .processNewMsgs) {next : Subscriber δ} {stream' : GroupStream κ α}
    (hread : Subscriber.readNew parse s.stream me count = some (next, stream')) :
    SubscribeInv me count
      { s with
        stream := stream', loop := next
        delivered := s.delivered ++ (s.stream.unread.take count).map Prod.fst } := by
  have hinv := h.loop
  rw [hloop] at hinv
  have hnext := hinv.readNew hread
  obtain ⟨rfl, -, -⟩ := readNew_cases hread
  have hpel := GroupStream.pelIds_xreadgroupNew_self s.stream me count
  refine ⟨hnext, ?_, unread_ids_xreadgroupNew me count h.unread, ?_⟩
  · -- delivered: the new ones are pending now
    intro id hid
    show id ∈ s.acked ∨ id ∈ (s.stream.xreadgroupNew me count).2.pelIds me
    rw [hpel, List.mem_append]
    cases List.mem_append.1 hid with
    | inl hid => exact (h.delivered id hid).imp_right .inl
    | inr hid => exact .inr (.inr hid)
  · -- alone
    intro honly id hpos hle
    show id ∈ s.acked ∨ id ∈ (s.stream.xreadgroupNew me count).2.pelIds me
    rw [hpel, List.mem_append]
    by_cases hold : id ≤ s.stream.lastDelivered
    · exact (h.alone honly id hpos hold).imp_right .inl
    · -- above the old mark: the entry was unread, so it is in this batch
      have hlast := Nat.le_trans hle (s.stream.xreadgroupNew me count).2.delivered_le
      obtain ⟨e, he, rfl⟩ := List.mem_map.1 (h.unread id (by omega) hlast)
      have htake := GroupStream.mem_take_of_le_lastDelivered he hle
      exact .inr (.inr (List.mem_map_of_mem htake))

/-- Every action keeps the invariant. -/
theorem subscribeInv_step {parse : α → Option δ} {me : κ} {count : Nat}
    {s s' : SubscribeState κ α δ} {a : SubscribeAction κ α}
    (hstep : s.step parse me count a = some s') (h : SubscribeInv me count s) :
    SubscribeInv me count s' := by
  cases a with
  | xAdd msg =>
    cases hstep
    exact ⟨h.loop.xadd msg, h.delivered, unread_ids_xadd msg h.unread, h.alone⟩
  | readBacklog =>
    cases hloop : s.loop with
    | processBacklogMsgs cursorId =>
      simp only [SubscribeState.step, hloop, Option.some.injEq] at hstep
      subst hstep
      cases hread : Subscriber.readBacklog parse s.stream me count cursorId with
      | mk next stream' => exact h.readBacklog hloop hread
    | _ => simp [SubscribeState.step, hloop] at hstep
  | readNew =>
    cases hloop : s.loop with
    | processNewMsgs =>
      simp only [SubscribeState.step, hloop] at hstep
      cases hread : Subscriber.readNew parse s.stream me count with
      | none => simp [hread] at hstep
      | some p =>
        obtain ⟨next, stream'⟩ := p
        simp only [hread, Option.some.injEq] at hstep
        subst hstep
        exact h.readNew hloop hread
    | _ => simp [SubscribeState.step, hloop] at hstep
  | xAckDel msgIDs =>
    cases hloop : s.loop with
    | handler msgs isBacklogMsg =>
      simp only [SubscribeState.step, hloop] at hstep
      split at hstep
      · next hsub =>
        have hs' := Option.some.inj hstep
        subst hs'
        rw [← hloop]
        apply h.xAckDel
        -- the handler was given these messages, so they were delivered
        intro id hid
        obtain ⟨m, hm, rfl⟩ := List.mem_map.1 (hsub hid)
        exact h.loop.handed_le m (by rw [hloop]; exact hm)
      · cases hstep
    | _ => simp [SubscribeState.step, hloop] at hstep
  | handlerReturn =>
    cases hloop : s.loop with
    | handler msgs isBacklogMsg =>
      simp only [SubscribeState.step, hloop, Option.some.injEq] at hstep
      subst hstep
      have hinv := h.loop
      rw [hloop] at hinv
      exact ⟨hinv.handled, h.delivered, h.unread, h.alone⟩
    | _ => simp [SubscribeState.step, hloop] at hstep
  | crash =>
    cases hstep
    exact ⟨h.loop.start, h.delivered, h.unread, h.alone⟩
  | otherReadBacklog d n cursorId =>
    simp only [SubscribeState.step] at hstep
    split at hstep
    · cases hstep
    · next hd =>
      have hs' := Option.some.inj hstep
      subst hs'
      have hpel := GroupStream.pelIds_xreadgroupFrom s.stream me d cursorId n
      refine ⟨(h.loop.other hd n cursorId).1, ?_, h.unread, ?_⟩
      · rw [hpel]
        exact h.delivered
      · rw [hpel]
        exact h.alone
  | otherReadNew d n =>
    -- with another consumer in the group the last field says nothing
    simp only [SubscribeState.step] at hstep
    split at hstep
    · cases hstep
    · next hd =>
      have hs' := Option.some.inj hstep
      subst hs'
      have hpel := GroupStream.pelIds_xreadgroupNew_ne s.stream hd n
      refine ⟨(h.loop.other hd n 0).2, ?_, unread_ids_xreadgroupNew d n h.unread, ?_⟩
      · rw [hpel]
        exact h.delivered
      · intro honly
        exact absurd (honly d) hd
  | otherXAckDel d msgIDs =>
    simp only [SubscribeState.step] at hstep
    split at hstep
    · cases hstep
    · split at hstep
      · next hsub =>
        have hs' := Option.some.inj hstep
        subst hs'
        exact h.xAckDel fun id hid => (GroupStream.pelIds_bounded (hsub hid)).2
      · cases hstep

theorem subscribeInv_run {parse : α → Option δ} {me : κ} {count : Nat}
    {as : List (SubscribeAction κ α)} {s : SubscribeState κ α δ}
    (h : run (SubscribeState.step parse me count) .init as = some s) : SubscribeInv me count s :=
  run_invariant (fun _ _ _ => subscribeInv_step) h (subscribeInv_init me count)

/-- New messages are read only when nothing is pending, at most one batch is ever pending, and
    the backlog pass ends only when all that was delivered is acknowledged. A consumer that is
    alone in its group is handed a message only when every earlier one is acknowledged or in
    the same batch. -/
theorem subscribe_backlogFirst {parse : α → Option δ} {me : κ} {count : Nat}
    {as : List (SubscribeAction κ α)} {s : SubscribeState κ α δ}
    (h : run (SubscribeState.step parse me count) .init as = some s) :
    (s.loop = .processNewMsgs → s.stream.pelIds me = []) ∧
      (s.stream.pelIds me).length ≤ count ∧
      (s.loop = .processNewMsgs → ∀ id ∈ s.delivered, id ∈ s.acked) ∧
      ((∀ d, d = me) → ∀ msgs isBacklogMsg, s.loop = .handler msgs isBacklogMsg →
        ∀ m ∈ msgs, ∀ id, 0 < id → id < m.id → id ∈ s.acked ∨ ∃ m' ∈ msgs, m'.id = id) := by
  have hinv := subscribeInv_run h
  have hnew : s.loop = .processNewMsgs → s.stream.pelIds me = [] := by
    intro hloop
    have hat := hinv.loop.at_loop
    rw [hloop] at hat
    exact hat
  refine ⟨hnew, hinv.loop.pel_le, ?_, ?_⟩
  · -- delivered, and not pending any more
    intro hloop id hid
    have hor := hinv.delivered id hid
    rw [hnew hloop] at hor
    exact hor.resolve_right List.not_mem_nil
  · -- an earlier message is acknowledged or pending, and the handler has all that is pending
    intro honly msgs isBacklogMsg hloop m hm id hpos hlt
    have hle := hinv.loop.handed_le m (by rw [hloop]; exact hm)
    have hat := hinv.loop.at_loop
    rw [hloop] at hat
    cases hinv.alone honly id hpos (by omega) with
    | inl hacked => exact .inl hacked
    | inr hpending =>
      obtain ⟨m', hm', hid⟩ := List.mem_map.1 (hat.1 hpending)
      exact .inr ⟨m', hm', hid⟩

/-- Three messages, batch size two: a crash after the first read, then the handler
    acknowledges the second message only and fails. -/
def partialAck : List (SubscribeAction Unit Nat) :=
  [.xAdd 10, .xAdd 11, .xAdd 12, .readBacklog, .readNew, .crash, .readBacklog, .xAckDel [2],
    .handlerReturn, .readBacklog, .readBacklog]

theorem subscribe_backlogFirst_partialAck :
    ∃ s : SubscribeState Unit Nat Nat,
      run (SubscribeState.step some () 2) .init partialAck = some s ∧
        s.loop = .handler [⟨1, 10⟩] true ∧
        ((s.loop = .processNewMsgs → s.stream.pelIds () = []) ∧
          (s.stream.pelIds ()).length ≤ 2 ∧
          (s.loop = .processNewMsgs → ∀ id ∈ s.delivered, id ∈ s.acked) ∧
          ((∀ d, d = ()) → ∀ msgs isBacklogMsg, s.loop = .handler msgs isBacklogMsg →
            ∀ m ∈ msgs, ∀ id, 0 < id → id < m.id → id ∈ s.acked ∨ ∃ m' ∈ msgs, m'.id = id)) :=
  ⟨_, rfl, rfl,
    subscribe_backlogFirst
      (show run (SubscribeState.step some () 2) .init partialAck = some _ from rfl)⟩

end Subscribe

end BlockFeed.Spec
