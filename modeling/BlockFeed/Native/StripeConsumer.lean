import BlockFeed.ForStd.Transition
import BlockFeed.Native.RedisStream

/-!
# The Stripe event consumer

`StripeWebhookEventProducer` appends events to a stream, and `StripeWebhookEventConsumer` reads
them with one consumer of a group that `build` creates at the end of the stream. `consume` is a
generator: it reads one message at a time, first its own pending ones and then new ones, calls
`consumeEvent` for it, acknowledges and deletes it, and yields the outcome. A `ConsumeLoop` is its
position between two calls.

The process may crash anywhere and is started again with the same names. `emit` is what can be
seen of a step: events produced and delivered, calls of `consumeEvent` and how they settled, and
the yielded arrays.
-/

namespace BlockFeed.Native

open Redis Transition

/-- Events and the JSON texts in the stream. -/
class EventText (ε : outParam Type) (T : Type) where
  /-- `event.type` -/
  type : ε → String
  /-- `JSON.stringify` -/
  stringify : ε → T
  /-- `JSON.parse` and the checks of the message before it -/
  parse : T → Option ε
  parse_stringify : ∀ event, parse (stringify event) = some event

/-- `XGROUP CREATE key group $ MKSTREAM`. -/
def xgroupCreate {κ α : Type} (stream : GroupStream κ α) : GroupStream κ α :=
  { stream with
    lastDelivered := stream.lastId
    pel := []
    pelSorted := .nil
    pelBounded := by simp
    delivered_le := Nat.le_refl _ }

/-- `cursorId`: the own pending messages, or the new ones. -/
inductive Cursor where
  /-- `"0-0"` -/
  | backlog
  /-- `">"` -/
  | new
deriving DecidableEq, Repr

/-- One value of `stripeEvents`. -/
structure StripeEvent (ε : Type) where
  id : Nat
  data : ε
  err : Option String
deriving DecidableEq

/-- The position of `consume`. -/
inductive ConsumeLoop (ε : Type) where
  /-- the next call is XREADGROUP -/
  | xreadgroup (cursorId : Cursor)
  /-- the messages that are left, and the events so far -/
  | processing (cursorId : Cursor) (stripeEvents : List (StripeEvent ε))
    (msgs : List (ParsedStreamMessage ε))
  /-- `consumeEvent` runs for a message -/
  | consumeEvent (cursorId : Cursor) (stripeEvents : List (StripeEvent ε))
    (msg : ParsedStreamMessage ε) (msgs : List (ParsedStreamMessage ε))
  /-- about to yield -/
  | yielding (cursorId : Cursor) (stripeEvents : List (StripeEvent ε))
  /-- `consume` has ended, thrown, or gone down with the process -/
  | stopped
deriving DecidableEq

/-- `"COUNT", 1`: only read one msg at a time. -/
def readCount : Nat := 1

/-- The stream and the consumer. -/
structure StripeConsumer (κ ε T : Type) where
  stream : GroupStream κ T
  loop : ConsumeLoop ε

/-- What happens to them. -/
inductive StripeAction (ε : Type) where
  | produce (event : ε)
  /-- `controller.abort()` is seen at the head of the loop -/
  | abort
  | xreadgroup
  /-- XREADGROUP returns null after `blockMs` -/
  | timeout
  | consumeEvent
  /-- the promise settles: `thrown` is the message of its error -/
  | settle (thrown : Option String)
  | xackdel
  | yield
  | crash
  | restart
deriving DecidableEq

/-- What can be seen of a step. -/
inductive StripeOutput (ε : Type) where
  | produced (id : Nat) (event : ε)
  | delivered (id : Nat)
  | called (id : Nat) (event : ε)
  | settled (id : Nat) (event : ε) (thrown : Option String)
  | yielded (stripeEvents : List (StripeEvent ε))

/-- `err` of an event. IDs are numbers here. -/
def consumeError (type : String) (id : Nat) (thrown : String) : String :=
  "an error occurred while processing event \"" ++ type ++ "\" with message ID \"" ++
    toString id ++ "\":\n" ++ thrown

namespace StripeConsumer

variable {κ ε T : Type} [DecidableEq κ] [EventText ε T]

/-- After the first `build` on a stream, at the start of `consume`. -/
def init (stream : GroupStream κ T) : StripeConsumer κ ε T :=
  ⟨xgroupCreate stream, .xreadgroup .backlog⟩

/-- `consume` from the reply of XREADGROUP to the next call. -/
def received (cursorId : Cursor) (msgs : List (Nat × Option T)) : ConsumeLoop ε :=
  if msgs.isEmpty then
    match cursorId with
    -- "If the backlog is empty, move onto processing new messages"
    | .backlog => .xreadgroup .new
    | .new => .xreadgroup .backlog
  else
    match parseMessages EventText.parse msgs with
    | none => .stopped
    | some msgs => .processing cursorId [] msgs

/-- The event of a message whose `consumeEvent` has settled. -/
def stripeEvent (T : Type) [EventText ε T] (msg : ParsedStreamMessage ε)
    (thrown : Option String) : StripeEvent ε where
  id := msg.id
  data := msg.data
  err := thrown.map (consumeError (EventText.type T msg.data) msg.id)

/-- Takes one action, `none` when it is not enabled. -/
def step (me : κ) (s : StripeConsumer κ ε T) : StripeAction ε → Option (StripeConsumer κ ε T)
  | .produce event => some { s with stream := s.stream.xadd (EventText.stringify event) }
  | .abort =>
    match s.loop with
    | .xreadgroup _ => some { s with loop := .stopped }
    | _ => none
  | .xreadgroup =>
    match s.loop with
    | .xreadgroup .backlog =>
      let (msgs, stream) := s.stream.xreadgroupFrom me 0 readCount
      some ⟨stream, received .backlog msgs⟩
    | .xreadgroup .new =>
      -- the call blocks while there is nothing new
      if s.stream.unread.isEmpty then none
      else
        let (msgs, stream) := s.stream.xreadgroupNew me readCount
        some ⟨stream, received .new (msgs.map fun msg => (msg.1, some msg.2))⟩
    | _ => none
  | .timeout =>
    match s.loop with
    | .xreadgroup .new =>
      if s.stream.unread.isEmpty then some { s with loop := .yielding .new [] } else none
    | _ => none
  | .consumeEvent =>
    match s.loop with
    | .processing cursorId stripeEvents (msg :: msgs) =>
      some { s with loop := .consumeEvent cursorId stripeEvents msg msgs }
    | _ => none
  | .settle thrown =>
    match s.loop with
    | .consumeEvent cursorId stripeEvents msg msgs =>
      let event := stripeEvent T msg thrown
      some { s with loop := .processing cursorId (stripeEvents ++ [event]) msgs }
    | _ => none
  | .xackdel =>
    match s.loop with
    -- `stripeEvents.size !== 0`: no reply with messages leaves it empty
    | .processing cursorId (event :: stripeEvents) [] =>
      let stream := xAckDel s.stream ((event :: stripeEvents).map StripeEvent.id)
      some ⟨stream, .yielding cursorId (event :: stripeEvents)⟩
    | _ => none
  | .yield =>
    match s.loop with
    | .yielding cursorId _ => some { s with loop := .xreadgroup cursorId }
    | _ => none
  | .crash => some { s with loop := .stopped }
  | .restart =>
    match s.loop with
    -- `build` finds the group (BUSYGROUP)
    | .stopped => some { s with loop := .xreadgroup .backlog }
    | _ => none

/-- What a step shows. -/
def emit (s : StripeConsumer κ ε T) : StripeAction ε → List (StripeOutput ε)
  | .produce event => [.produced (s.stream.lastId + 1) event]
  | .xreadgroup =>
    match s.loop with
    | .xreadgroup .new => (s.stream.unread.take readCount).map fun msg => .delivered msg.1
    | _ => []
  | .consumeEvent =>
    match s.loop with
    | .processing _ _ (msg :: _) => [.called msg.id msg.data]
    | _ => []
  | .settle thrown =>
    match s.loop with
    | .consumeEvent _ _ msg _ => [.settled msg.id msg.data thrown]
    | _ => []
  | .yield =>
    match s.loop with
    | .yielding _ stripeEvents => [.yielded stripeEvents]
    | _ => []
  | _ => []

/-- The steps with what each of them shows. -/
inductive Steps (me : κ) (s : StripeConsumer κ ε T) :
    StripeAction ε → StripeConsumer κ ε T → List (StripeOutput ε) → Prop where
  | produce (event : ε) :
    Steps me s (.produce event) { s with stream := s.stream.xadd (EventText.stringify event) }
      [.produced (s.stream.lastId + 1) event]
  | abort {cursorId : Cursor} (hloop : s.loop = .xreadgroup cursorId) :
    Steps me s .abort { s with loop := .stopped } []
  | backlog (hloop : s.loop = .xreadgroup .backlog) :
    Steps me s .xreadgroup
      ⟨(s.stream.xreadgroupFrom me 0 readCount).2,
        received .backlog (s.stream.xreadgroupFrom me 0 readCount).1⟩ []
  | new (hloop : s.loop = .xreadgroup .new) (hsome : s.stream.unread ≠ []) :
    Steps me s .xreadgroup
      ⟨(s.stream.xreadgroupNew me readCount).2,
        received .new ((s.stream.unread.take readCount).map fun msg => (msg.1, some msg.2))⟩
      ((s.stream.unread.take readCount).map fun msg => .delivered msg.1)
  | timeout (hloop : s.loop = .xreadgroup .new) :
    Steps me s .timeout { s with loop := .yielding .new [] } []
  | consumeEvent {cursorId : Cursor} {stripeEvents : List (StripeEvent ε)}
    {msg : ParsedStreamMessage ε} {msgs : List (ParsedStreamMessage ε)}
    (hloop : s.loop = .processing cursorId stripeEvents (msg :: msgs)) :
    Steps me s .consumeEvent { s with loop := .consumeEvent cursorId stripeEvents msg msgs }
      [.called msg.id msg.data]
  | settle {cursorId : Cursor} {stripeEvents : List (StripeEvent ε)}
    {msg : ParsedStreamMessage ε} {msgs : List (ParsedStreamMessage ε)} (thrown : Option String)
    (hloop : s.loop = .consumeEvent cursorId stripeEvents msg msgs) :
    Steps me s (.settle thrown)
      { s with loop := .processing cursorId (stripeEvents ++ [stripeEvent T msg thrown]) msgs }
      [.settled msg.id msg.data thrown]
  | xackdel {cursorId : Cursor} {event : StripeEvent ε} {stripeEvents : List (StripeEvent ε)}
    (hloop : s.loop = .processing cursorId (event :: stripeEvents) []) :
    Steps me s .xackdel
      ⟨xAckDel s.stream ((event :: stripeEvents).map StripeEvent.id),
        .yielding cursorId (event :: stripeEvents)⟩ []
  | yield {cursorId : Cursor} {stripeEvents : List (StripeEvent ε)}
    (hloop : s.loop = .yielding cursorId stripeEvents) :
    Steps me s .yield { s with loop := .xreadgroup cursorId } [.yielded stripeEvents]
  | crash : Steps me s .crash { s with loop := .stopped } []
  | restart (hloop : s.loop = .stopped) :
    Steps me s .restart { s with loop := .xreadgroup .backlog } []

theorem step_cases {me : κ} {s s' : StripeConsumer κ ε T} {a : StripeAction ε}
    (h : s.step me a = some s') : Steps me s a s' (s.emit a) := by
  cases a with
  | produce event =>
    cases h
    exact .produce event
  | abort =>
    simp only [step] at h
    split at h
    · next hloop =>
      cases h
      exact .abort hloop
    · cases h
  | xreadgroup =>
    simp only [step] at h
    split at h
    · next hloop =>
      cases h
      simp only [emit, hloop]
      exact .backlog hloop
    · next hloop =>
      split at h
      · cases h
      · next hsome =>
        cases h
        simp only [emit, hloop]
        exact .new hloop fun hnone => hsome (List.isEmpty_iff.2 hnone)
    · cases h
  | timeout =>
    simp only [step] at h
    split at h
    · next hloop =>
      split at h
      · cases h
        exact .timeout hloop
      · cases h
    · cases h
  | consumeEvent =>
    simp only [step] at h
    split at h
    · next hloop =>
      cases h
      simp only [emit, hloop]
      exact .consumeEvent hloop
    · cases h
  | settle thrown =>
    simp only [step] at h
    split at h
    · next hloop =>
      cases h
      simp only [emit, hloop]
      exact .settle thrown hloop
    · cases h
  | xackdel =>
    simp only [step] at h
    split at h
    · next hloop =>
      cases h
      exact .xackdel hloop
    · cases h
  | yield =>
    simp only [step] at h
    split at h
    · next hloop =>
      cases h
      simp only [emit, hloop]
      exact .yield hloop
    · cases h
  | crash =>
    cases h
    exact .crash
  | restart =>
    simp only [step] at h
    split at h
    · next hloop =>
      cases h
      exact .restart hloop
    · cases h

end StripeConsumer

end BlockFeed.Native
