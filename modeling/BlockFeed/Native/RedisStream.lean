import BlockFeed.Redis.ConsumerGroup

/-!
# Subscribing to a Redis stream

`RedisStream.Subscribe` runs, for each consumer, the loop `processBacklogMsgs` then
`processNewMsgs`. A `Subscriber` is the position of one consumer in that loop; `readBacklog`,
`readNew` and `handled` are the pieces of code between two calls. The stream holds messages
as they are encoded, and `parse` is `ParseMessage`.

A message read from the backlog whose entry has been deleted has no data field, so it does
not parse; a message that does not parse ends `Subscribe`.
-/

namespace BlockFeed.Native

open Redis

/-- `streams.ParsedStreamMessage`. -/
structure ParsedStreamMessage (δ : Type) where
  id : Nat
  data : δ
deriving DecidableEq, Repr

/-- Where a consumer stands in `Subscribe`. -/
inductive Subscriber (δ : Type) where
  /-- the next call is the XREADGROUP of `processBacklogMsgs` -/
  | processBacklogMsgs (cursorId : Nat)
  /-- the next call is the XREADGROUP of `processNewMsgs` -/
  | processNewMsgs
  /-- the handler runs on these messages -/
  | handler (msgs : List (ParsedStreamMessage δ)) (isBacklogMsg : Bool)
  /-- `Subscribe` has returned an error -/
  | stopped
deriving DecidableEq

/-- `ParseMessage` on every message of a reply. -/
def parseMessages {α δ : Type} (parse : α → Option δ) :
    List (Nat × Option α) → Option (List (ParsedStreamMessage δ))
  | [] => some []
  | (id, rawData) :: msgs =>
    match rawData.bind parse with
    | none => none
    | some data => (parseMessages parse msgs).map (⟨id, data⟩ :: ·)

/-- `RedisStream.XAckDel`: XACK and XDEL in one script. -/
def xAckDel {κ α : Type} (stream : GroupStream κ α) (msgIDs : List Nat) : GroupStream κ α :=
  (stream.xack msgIDs).xdel msgIDs

namespace Subscriber

variable {κ α δ : Type}

/-- The start of `Subscribe`, also after a crash. -/
def start : Subscriber δ := .processBacklogMsgs 0

/-- `processBacklogMsgs` from its XREADGROUP to the next call. -/
def readBacklog [DecidableEq κ] (parse : α → Option δ) (stream : GroupStream κ α)
    (consumerName : κ) (count cursorId : Nat) : Subscriber δ × GroupStream κ α :=
  let (msgs, stream) := stream.xreadgroupFrom consumerName cursorId count
  if msgs.isEmpty then
    -- only a pass from "0-0" shows that the backlog is empty
    if cursorId = 0 then (.processNewMsgs, stream) else (.processBacklogMsgs 0, stream)
  else
    match parseMessages parse msgs with
    -- a parse error is returned, so the consumer goes down
    | none => (.stopped, stream)
    | some parsedMsgs => (.handler parsedMsgs true, stream)

/-- `processNewMsgs` from its XREADGROUP to the next call. The read blocks while there is
    nothing new. -/
def readNew (parse : α → Option δ) (stream : GroupStream κ α) (consumerName : κ) (count : Nat) :
    Option (Subscriber δ × GroupStream κ α) :=
  if stream.unread.isEmpty then none
  else
    let (msgs, stream) := stream.xreadgroupNew consumerName count
    match parseMessages parse (msgs.map fun m => (m.1, some m.2)) with
    | none => some (.stopped, stream)
    | some parsedMsgs => some (.handler parsedMsgs false, stream)

/-- What follows when the handler returns. An error is logged and otherwise ignored. -/
def handled (msgs : List (ParsedStreamMessage δ)) (isBacklogMsg : Bool) : Subscriber δ :=
  -- the cursor moves on whether or not the handler has acknowledged anything
  if isBacklogMsg then .processBacklogMsgs (msgs.getLast?.elim 0 ParsedStreamMessage.id)
  else .processBacklogMsgs 0

end Subscriber

section Lemmas

variable {κ α δ : Type}

/-- A reply parses when its first message and the rest do. -/
theorem parseMessages_cons {parse : α → Option δ} {id : Nat} {rawData : Option α}
    {msgs : List (Nat × Option α)} {parsedMsgs : List (ParsedStreamMessage δ)}
    (h : parseMessages parse ((id, rawData) :: msgs) = some parsedMsgs) :
    ∃ data rest, rawData.bind parse = some data ∧ parseMessages parse msgs = some rest ∧
      parsedMsgs = ⟨id, data⟩ :: rest := by
  simp only [parseMessages] at h
  cases hdata : rawData.bind parse with
  | none => simp [hdata] at h
  | some data =>
    simp only [hdata, Option.map_eq_some_iff] at h
    obtain ⟨rest, hrest, rfl⟩ := h
    exact ⟨data, rest, rfl, hrest, rfl⟩

/-- Parsing keeps the IDs. -/
theorem ids_parseMessages {parse : α → Option δ} {msgs : List (Nat × Option α)}
    {parsedMsgs : List (ParsedStreamMessage δ)} (h : parseMessages parse msgs = some parsedMsgs) :
    parsedMsgs.map ParsedStreamMessage.id = msgs.map Prod.fst := by
  induction msgs generalizing parsedMsgs with
  | nil =>
    simp only [parseMessages, Option.some.injEq] at h
    rw [← h]
    rfl
  | cons m msgs ih =>
    obtain ⟨data, rest, -, hrest, rfl⟩ := parseMessages_cons h
    simp only [List.map_cons, ih hrest]

/-- Each parsed message comes from a message of the reply. -/
theorem mem_parseMessages {parse : α → Option δ} {msgs : List (Nat × Option α)}
    {parsedMsgs : List (ParsedStreamMessage δ)} (h : parseMessages parse msgs = some parsedMsgs)
    {m : ParsedStreamMessage δ} (hm : m ∈ parsedMsgs) :
    ∃ v, (m.id, some v) ∈ msgs ∧ parse v = some m.data := by
  induction msgs generalizing parsedMsgs with
  | nil =>
    simp only [parseMessages, Option.some.injEq] at h
    rw [← h] at hm
    cases hm
  | cons e msgs ih =>
    obtain ⟨id, rawData⟩ := e
    obtain ⟨data, rest, hdata, hrest, rfl⟩ := parseMessages_cons h
    cases List.mem_cons.1 hm with
    | inl hm =>
      obtain ⟨v, rfl, hv⟩ := Option.bind_eq_some_iff.1 hdata
      exact ⟨v, hm ▸ List.mem_cons_self, hm ▸ hv⟩
    | inr hm =>
      obtain ⟨v, hv, hp⟩ := ih hrest hm
      exact ⟨v, List.mem_cons_of_mem _ hv, hp⟩

@[simp] theorem entries_xAckDel (stream : GroupStream κ α) (ids : List Nat) :
    (xAckDel stream ids).entries = stream.entries.filter (fun e => e.1 ∉ ids) := rfl

theorem unread_xAckDel (stream : GroupStream κ α) (ids : List Nat) :
    (xAckDel stream ids).unread = stream.unread.filter (fun e => e.1 ∉ ids) := by
  rw [xAckDel, GroupStream.unread_xdel, GroupStream.unread_xack]

theorem pelIds_xAckDel [DecidableEq κ] (stream : GroupStream κ α) (ids : List Nat) (c : κ) :
    (xAckDel stream ids).pelIds c = (stream.pelIds c).filter (fun id => id ∉ ids) := by
  rw [xAckDel, GroupStream.pelIds_xdel, GroupStream.pelIds_xack]

/-- The outcomes of a backlog read: an empty reply, which ends the pass or wraps the cursor;
    messages for the handler; or a message that does not parse. -/
theorem readBacklog_cases [DecidableEq κ] {parse : α → Option δ} {stream stream' : GroupStream κ α}
    {c : κ} {count cursorId : Nat} {next : Subscriber δ}
    (h : Subscriber.readBacklog parse stream c count cursorId = (next, stream')) :
    stream' = (stream.xreadgroupFrom c cursorId count).2 ∧
      ((stream.xreadgroupFrom c cursorId count).1 = [] ∧
          next = (if cursorId = 0 then .processNewMsgs else .processBacklogMsgs 0) ∨
        (stream.xreadgroupFrom c cursorId count).1 ≠ [] ∧
          (next = .stopped ∨ ∃ msgs, next = .handler msgs true ∧
            parseMessages parse (stream.xreadgroupFrom c cursorId count).1 = some msgs)) := by
  unfold Subscriber.readBacklog at h
  cases hmsgs : (stream.xreadgroupFrom c cursorId count).1 with
  | nil =>
    -- nothing from the cursor on
    simp only [hmsgs, List.isEmpty_nil, if_true] at h
    split at h
    · next h0 =>
      obtain ⟨rfl, rfl⟩ := Prod.mk.inj h
      exact ⟨rfl, .inl ⟨rfl, by rw [if_pos h0]⟩⟩
    · next h0 =>
      obtain ⟨rfl, rfl⟩ := Prod.mk.inj h
      exact ⟨rfl, .inl ⟨rfl, by rw [if_neg h0]⟩⟩
  | cons m ms =>
    simp only [hmsgs, List.isEmpty_cons, Bool.false_eq_true, if_false] at h
    split at h
    · obtain ⟨rfl, rfl⟩ := Prod.mk.inj h
      exact ⟨rfl, .inr ⟨by simp, .inl rfl⟩⟩
    · next msgs hparse =>
      obtain ⟨rfl, rfl⟩ := Prod.mk.inj h
      exact ⟨rfl, .inr ⟨by simp, .inr ⟨msgs, rfl, hparse⟩⟩⟩

/-- The outcomes of a read of new messages. -/
theorem readNew_cases {parse : α → Option δ} {stream stream' : GroupStream κ α}
    {c : κ} {count : Nat} {next : Subscriber δ}
    (h : Subscriber.readNew parse stream c count = some (next, stream')) :
    stream' = (stream.xreadgroupNew c count).2 ∧ stream.unread ≠ [] ∧
      (next = .stopped ∨ ∃ msgs, next = .handler msgs false ∧
        parseMessages parse ((stream.unread.take count).map fun m => (m.1, some m.2)) =
          some msgs) := by
  unfold Subscriber.readNew at h
  split at h
  · cases h
  · next hne =>
    have hne' : stream.unread ≠ [] := fun h => hne (by rw [h]; rfl)
    simp only at h
    split at h
    · obtain ⟨rfl, rfl⟩ := Prod.mk.inj (Option.some.inj h)
      exact ⟨rfl, hne', .inl rfl⟩
    · next msgs hparse =>
      obtain ⟨rfl, rfl⟩ := Prod.mk.inj (Option.some.inj h)
      exact ⟨rfl, hne', .inr ⟨msgs, rfl, hparse⟩⟩

/-- The handler of a backlog read has something to do. -/
theorem handler_ne_nil_of_readBacklog [DecidableEq κ] {parse : α → Option δ}
    {stream stream' : GroupStream κ α} {c : κ} {count cursorId : Nat} {next : Subscriber δ}
    (h : Subscriber.readBacklog parse stream c count cursorId = (next, stream')) :
    ∀ msgs isBacklogMsg, next = .handler msgs isBacklogMsg → msgs ≠ [] := by
  intro msgs isBacklogMsg hnext hnil
  -- an empty reply leads to another read, and parsing keeps the length of a reply
  obtain ⟨-, hcases⟩ := readBacklog_cases h
  cases hcases with
  | inl hempty =>
    obtain ⟨-, hloop⟩ := hempty
    rw [hnext] at hloop
    split at hloop
    · cases hloop
    · cases hloop
  | inr hsome =>
    obtain ⟨hne, hloop⟩ := hsome
    rw [hnext] at hloop
    cases hloop with
    | inl hstop => cases hstop
    | inr hmsgs =>
      obtain ⟨msgs', heq, hparse⟩ := hmsgs
      cases heq
      have hids := ids_parseMessages hparse
      rw [hnil] at hids
      exact hne (List.map_eq_nil_iff.1 hids.symm)

/-- So has the handler of a read of new messages. -/
theorem handler_ne_nil_of_readNew {parse : α → Option δ} {stream stream' : GroupStream κ α}
    {c : κ} {count : Nat} {next : Subscriber δ} (hcount : 0 < count)
    (h : Subscriber.readNew parse stream c count = some (next, stream')) :
    ∀ msgs isBacklogMsg, next = .handler msgs isBacklogMsg → msgs ≠ [] := by
  intro msgs isBacklogMsg hnext hnil
  obtain ⟨-, hne, hcases⟩ := readNew_cases h
  rw [hnext] at hcases
  cases hcases with
  | inl hstop => cases hstop
  | inr hmsgs =>
    obtain ⟨msgs', heq, hparse⟩ := hmsgs
    cases heq
    have hids := ids_parseMessages hparse
    rw [hnil, List.map_map] at hids
    have htake := List.map_eq_nil_iff.1 hids.symm
    cases List.take_eq_nil_iff.1 htake with
    | inl hzero => omega
    | inr hunread => exact hne hunread

end Lemmas

/-! ## One consumer's loop

The handler acknowledges any of its messages in any number of calls and then returns; the
consumer may crash anywhere and starts again under the same name. Other consumers of the
group read and acknowledge their own messages meanwhile. `delivered` and `acked` record the
IDs given to the consumer and the IDs acknowledged by anyone.
-/

/-- The stream, one consumer's loop, and what was delivered to it and acknowledged. -/
structure SubscribeState (κ α δ : Type) where
  stream : GroupStream κ α
  loop : Subscriber δ
  delivered : List Nat
  acked : List Nat

/-- A call of the consumer, the return of its handler, or an action of someone else. -/
inductive SubscribeAction (κ α : Type) where
  | xAdd (msg : α)
  | readBacklog
  | readNew
  | xAckDel (msgIDs : List Nat)
  | handlerReturn
  | crash
  | otherReadBacklog (consumerName : κ) (count cursorId : Nat)
  | otherReadNew (consumerName : κ) (count : Nat)
  | otherXAckDel (consumerName : κ) (msgIDs : List Nat)

namespace SubscribeState

variable {κ α δ : Type} [DecidableEq κ]

/-- An empty stream, the consumer at its start. -/
def init : SubscribeState κ α δ := ⟨.empty, .start, [], []⟩

/-- Takes one action of the loop of `me` with batch size `count`. -/
def step (parse : α → Option δ) (me : κ) (count : Nat) (s : SubscribeState κ α δ) :
    SubscribeAction κ α → Option (SubscribeState κ α δ)
  | .xAdd msg => some { s with stream := s.stream.xadd msg }
  | .readBacklog =>
    match s.loop with
    | .processBacklogMsgs cursorId =>
      let (loop, stream) := Subscriber.readBacklog parse s.stream me count cursorId
      some { s with stream := stream, loop := loop }
    | _ => none
  | .readNew =>
    match s.loop with
    | .processNewMsgs =>
      match Subscriber.readNew parse s.stream me count with
      | none => none
      | some (loop, stream) =>
        let new := (s.stream.unread.take count).map Prod.fst
        some { s with stream := stream, loop := loop, delivered := s.delivered ++ new }
    | _ => none
  | .xAckDel msgIDs =>
    match s.loop with
    | .handler msgs _ =>
      -- a handler acknowledges what it was given, in parts if it likes
      if msgIDs ⊆ msgs.map ParsedStreamMessage.id then
        some { s with stream := xAckDel s.stream msgIDs, acked := s.acked ++ msgIDs }
      else none
    | _ => none
  | .handlerReturn =>
    match s.loop with
    | .handler msgs isBacklogMsg => some { s with loop := .handled msgs isBacklogMsg }
    | _ => none
  | .crash => some { s with loop := .start }
  | .otherReadBacklog consumerName n cursorId =>
    if consumerName = me then none
    else some { s with stream := (s.stream.xreadgroupFrom consumerName cursorId n).2 }
  | .otherReadNew consumerName n =>
    if consumerName = me then none
    else some { s with stream := (s.stream.xreadgroupNew consumerName n).2 }
  | .otherXAckDel consumerName msgIDs =>
    if consumerName = me then none
    -- so do the handlers of other consumers, with what is pending for them
    else if msgIDs ⊆ s.stream.pelIds consumerName then
      some { s with stream := xAckDel s.stream msgIDs, acked := s.acked ++ msgIDs }
    else none

end SubscribeState

end BlockFeed.Native
