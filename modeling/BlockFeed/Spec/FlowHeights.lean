import BlockFeed.Native.FlowSource

/-!
# The heights that the Flow source forwards

`Subscribe` keeps one height, the next to be handled. Data of the subscription and the block that
`reconnect` asks for both advance it, and every subscription is opened at it. So whatever fails in
between, the heights that are handled are consecutive (`flow_heights_consecutive`).

Heights are those of `uint64`: above the greatest of them comes 0.
-/

namespace BlockFeed.Spec

open BlockFeed.Native Transition

section FlowHeights

variable {ι β δ : Type}

/-- The heights of the blocks that the handler took. -/
def handledOf (log : List FlowOutput) : List UInt64 :=
  log.filterMap fun
    | .handled height => some height
    | .subscribed _ => none

/-- One above the last height handled, or the start height. -/
def nextHeight (c : UInt64) (log : List FlowOutput) : UInt64 :=
  ((handledOf log).getLast?.map (· + 1)).getD c

/-- The heights from `c` on were handled, and subscriptions asked for at the next one each. -/
structure Consecutive (c : UInt64) (log : List FlowOutput) : Prop where
  handled : handledOf log =
    (List.range (handledOf log).length).map fun i => c + UInt64.ofNat i
  subscribed : ∀ before height after, log = before ++ .subscribed height :: after →
    height = nextHeight c before

/-- The start height: it is given, or that of the latest block. -/
def StartsAt (startHeight : Option UInt64) (as : List (FlowAction ι β)) (c : UInt64) : Prop :=
  match startHeight, as with
  | some height, _ => height = c
  | none, .getLatestBlock (some block) :: _ => block.height = c
  | none, _ => False

/-- The client delivers the heights of a subscription in order from where it was opened, and
    returns the block that was asked for. -/
def Delivers (s : FlowBlockSource ι δ) : FlowAction ι β → Prop
  | .data (some resp) _ =>
    ∀ sub ∈ s.subscription, resp.height = sub.startHeight + UInt64.ofNat sub.delivered
  | .getBlock (.returned (some block)) =>
    match s.phase with
    | .getBlockByID resp _ => block.height = resp.height
    | .getBlockByHeight _ => s.currHeight = some block.height
    | _ => True
  | _ => True

instance (s : FlowBlockSource ι δ) (a : FlowAction ι β) : Decidable (Delivers s a) := by
  unfold Delivers
  split
  · infer_instance
  · split <;> infer_instance
  · infer_instance

/-! ### The log -/

theorem handledOf_handled (log : List FlowOutput) (height : UInt64) :
    handledOf (log ++ [.handled height]) = handledOf log ++ [height] := by
  simp only [handledOf, List.filterMap_append, List.filterMap_cons, List.filterMap_nil]

theorem handledOf_subscribed (log : List FlowOutput) (height : UInt64) :
    handledOf (log ++ [.subscribed height]) = handledOf log := by
  simp only [handledOf, List.filterMap_append, List.filterMap_cons, List.filterMap_nil,
    List.append_nil]

theorem nextHeight_handled (c : UInt64) (log : List FlowOutput) (height : UInt64) :
    nextHeight c (log ++ [.handled height]) = height + 1 := by
  rw [nextHeight, handledOf_handled, List.getLast?_concat]
  rfl

theorem nextHeight_subscribed (c : UInt64) (log : List FlowOutput) (height : UInt64) :
    nextHeight c (log ++ [.subscribed height]) = nextHeight c log := by
  rw [nextHeight, handledOf_subscribed, nextHeight]

namespace Consecutive

variable {c : UInt64} {log : List FlowOutput}

theorem nil (c : UInt64) : Consecutive c [] where
  handled := rfl
  subscribed := by
    intro before height after h
    exact absurd h.symm (List.append_ne_nil_of_right_ne_nil _ (List.cons_ne_nil _ _))

/-- What is before an added output is what was there, or the outputs were there before. -/
private theorem subscribed_concat {x : FlowOutput} (h : Consecutive c log)
    (hx : ∀ height, x = .subscribed height → height = nextHeight c log)
    {before after : List FlowOutput} {height : UInt64}
    (heq : log ++ [x] = before ++ .subscribed height :: after) :
    height = nextHeight c before := by
  cases List.eq_nil_or_concat after with
  | inl hnil =>
    subst hnil
    obtain ⟨rfl, hlast⟩ := List.append_inj' heq rfl
    exact hx height (List.cons.inj hlast).1
  | inr hconcat =>
    obtain ⟨init, last, rfl⟩ := hconcat
    have hsplit : log ++ [x] = (before ++ .subscribed height :: init) ++ [last] := by
      rw [heq, List.append_assoc, List.cons_append, List.concat_eq_append]
    exact h.subscribed before height init (List.append_inj' hsplit rfl).1

theorem nextHeight_eq (h : Consecutive c log) :
    nextHeight c log = c + UInt64.ofNat (handledOf log).length := by
  rw [nextHeight, h.handled, List.length_map, List.length_range]
  cases (handledOf log).length with
  | zero => exact (UInt64.add_zero c).symm
  | succ n =>
    rw [List.range_succ, List.map_append, List.map_singleton, List.getLast?_concat,
      UInt64.ofNat_add, ← UInt64.add_assoc]
    rfl

theorem concat_handled (h : Consecutive c log) {height : UInt64}
    (hheight : height = nextHeight c log) : Consecutive c (log ++ [.handled height]) where
  handled := by
    rw [handledOf_handled, List.length_append, List.length_singleton, List.range_succ,
      List.map_append, ← h.handled, hheight, h.nextHeight_eq]
    rfl
  subscribed := fun _ _ _ => h.subscribed_concat fun _ hx => by cases hx

theorem concat_subscribed (h : Consecutive c log) {height : UInt64}
    (hheight : height = nextHeight c log) : Consecutive c (log ++ [.subscribed height]) where
  handled := by
    rw [handledOf_subscribed]
    exact h.handled
  subscribed := fun _ _ _ => h.subscribed_concat fun _ hx => by cases hx; exact hheight

/-- Below the greatest height the heights are consecutive numbers. -/
theorem toNat_handled (h : Consecutive c log)
    (hmax : c.toNat + (handledOf log).length ≤ 2 ^ 64) :
    (handledOf log).map UInt64.toNat = List.range' c.toNat (handledOf log).length := by
  rw [h.handled, List.length_map, List.length_range, List.map_map, List.range'_eq_map_range]
  apply List.map_congr_left
  intro i hi
  have hlt := List.mem_range.1 hi
  show (c + UInt64.ofNat i).toNat = _
  rw [UInt64.toNat_add, UInt64.toNat_ofNat_of_lt' (show i < 2 ^ 64 by omega)]
  omega

end Consecutive

/-! ### The invariant -/

/-- The subscription goes on at this height. -/
def GoesOnAt (height : UInt64) (subscription : Option FlowSubscription) : Prop :=
  ∃ sub, subscription = some sub ∧ sub.startHeight + UInt64.ofNat sub.delivered = height

/-- What the position knows of the next height. -/
def PhaseInv (next : UInt64) (subscription : Option FlowSubscription) : FlowPhase ι δ → Prop
  | .select => GoesOnAt next subscription
  | .getBlockByID resp _ => resp.height = next ∧ GoesOnAt (next + 1) subscription
  | .handleData resp block =>
    resp.height = next ∧ block.height = next ∧ GoesOnAt (next + 1) subscription
  | .handleBlock block => block.height = next
  -- the height is known
  | .getLatestBlock => False
  | _ => True

/-- The height at hand is the next to be handled. -/
structure FlowInv (c : UInt64) (s : FlowBlockSource ι δ) (log : List FlowOutput) : Prop where
  consecutive : Consecutive c log
  currHeight : s.currHeight = some (nextHeight c log)
  phase : PhaseInv (nextHeight c log) s.subscription s.phase

theorem phaseInv_resubscribe (opts : ReconnectOpts) (next : UInt64)
    (subscription : Option FlowSubscription) :
    PhaseInv next subscription (FlowBlockSource.resubscribe opts : FlowPhase ι δ) := by
  unfold FlowBlockSource.resubscribe
  split <;> trivial

theorem phaseInv_reconnect (opts : ReconnectOpts) (next : UInt64)
    (subscription : Option FlowSubscription) :
    PhaseInv next subscription (FlowBlockSource.reconnect opts : FlowPhase ι δ) := by
  unfold FlowBlockSource.reconnect
  split
  · trivial
  · exact phaseInv_resubscribe opts next subscription

/-- A call succeeds with what the callback returned. -/
theorem backoff_result {τ : Type} {opts : ReconnectOpts} {b : Backoff} {event : BackoffEvent τ}
    {result : τ} (h : ExponentialBackoff.step opts b event = some (.result result)) :
    event = .returned (some result) := by
  unfold ExponentialBackoff.step at h
  split at h
  · cases h
    rfl
  · split at h
    · cases h
    · split at h <;> cases h
  · cases h
  · cases h
  · cases h

theorem formatBlock_height {stringifyBlock : FlowBlock β → Option δ} {block : FlowBlock β}
    {doc : BlockDocument δ} (h : FlowBlockSource.formatBlock stringifyBlock block = some doc) :
    doc.height = block.height := by
  obtain ⟨data, -, rfl⟩ := Option.map_eq_some_iff.1 h
  rfl

namespace FlowInv

variable {c : UInt64} {s s' : FlowBlockSource ι δ} {log : List FlowOutput}

theorem init (c : UInt64) (opts : ReconnectOpts) :
    FlowInv c (⟨some c, opts, none, .subscribe⟩ : FlowBlockSource ι δ) [] where
  consecutive := .nil c
  currHeight := rfl
  phase := trivial

/-- A move at the same height that shows nothing. -/
theorem move (h : FlowInv c s log) (subscription : Option FlowSubscription)
    {phase : FlowPhase ι δ} (hphase : PhaseInv (nextHeight c log) subscription phase) :
    FlowInv c { s with subscription := subscription, phase := phase } (log ++ []) := by
  rw [List.append_nil]
  exact ⟨h.consecutive, h.currHeight, hphase⟩

/-- A subscription is asked for at the height at hand. -/
theorem ask (h : FlowInv c s log) (subscription : Option FlowSubscription)
    {phase : FlowPhase ι δ} (hphase : PhaseInv (nextHeight c log) subscription phase) :
    FlowInv c { s with subscription := subscription, phase := phase } (log ++ s.asked) := by
  have hasked : s.asked = [.subscribed (nextHeight c log)] := by
    rw [FlowBlockSource.asked, h.currHeight]
    rfl
  rw [hasked]
  refine ⟨h.consecutive.concat_subscribed rfl, ?_, ?_⟩
  · rw [nextHeight_subscribed]
    exact h.currHeight
  · rw [nextHeight_subscribed]
    exact hphase

/-- A new subscription starts at the next height. -/
theorem opened (h : FlowInv c s log) :
    PhaseInv (nextHeight c log) (s.currHeight.map fun height => ⟨height, 0⟩)
      (.select : FlowPhase ι δ) := by
  rw [h.currHeight]
  exact ⟨_, rfl, UInt64.add_zero _⟩

/-- Whether or not a subscription is asked for. -/
theorem askOrMove (h : FlowInv c s log) (event : BackoffEvent Unit)
    (subscription : Option FlowSubscription) {phase : FlowPhase ι δ}
    (hphase : PhaseInv (nextHeight c log) subscription phase) :
    FlowInv c { s with subscription := subscription, phase := phase }
      (log ++ s.emit (.resubscribe event : FlowAction ι β)) := by
  cases event with
  | returned result => exact h.ask subscription hphase
  | timer => exact h.move subscription hphase
  | ctxDone => exact h.move subscription hphase

/-- The handler has taken the block at the next height. -/
theorem handle (h : FlowInv c s log) {height : UInt64} (hheight : height = nextHeight c log)
    {phase : FlowPhase ι δ} (hphase : PhaseInv (nextHeight c log + 1) s.subscription phase) :
    FlowInv c { s with currHeight := some (height + 1), phase := phase }
      (log ++ [.handled height]) := by
  refine ⟨h.consecutive.concat_handled hheight, ?_, ?_⟩
  · rw [nextHeight_handled]
  · rw [nextHeight_handled]
    exact hheight ▸ hphase

variable {stringifyBlock : FlowBlock β → Option δ}

/-- A fetch, of the next block whatever its path. -/
private theorem getBlock (h : FlowInv c s log) {event : BackoffEvent (FlowBlock β)}
    (hstep : s.step stringifyBlock (.getBlock event) = some s')
    (ha : Delivers s (.getBlock event : FlowAction ι β)) : FlowInv c s' (log ++ []) := by
  have hphase := h.phase
  simp only [FlowBlockSource.step] at hstep
  split at hstep
  · next resp b hp =>
    rw [hp] at hphase
    split at hstep
    · cases hstep
    · cases hstep
      exact h.move s.subscription hphase
    · next block hresult =>
      rw [backoff_result hresult] at ha
      simp only [Delivers, hp] at ha
      split at hstep
      · next doc hdoc =>
        cases hstep
        exact h.move s.subscription
          ⟨hphase.1, (formatBlock_height hdoc).trans (ha.trans hphase.1), hphase.2⟩
      · cases hstep
        exact h.move s.subscription trivial
    · cases hstep
      exact h.move s.subscription trivial
    · cases hstep
      exact h.move s.subscription trivial
  · next b hp =>
    split at hstep
    · cases hstep
    · cases hstep
      exact h.move s.subscription trivial
    · next block hresult =>
      rw [backoff_result hresult] at ha
      simp only [Delivers, hp, h.currHeight, Option.some.injEq] at ha
      split at hstep
      · next doc hdoc =>
        cases hstep
        exact h.move s.subscription ((formatBlock_height hdoc).trans ha.symm)
      · cases hstep
        exact h.move s.subscription (phaseInv_resubscribe s.opts _ _)
    · cases hstep
      exact h.move s.subscription (phaseInv_resubscribe s.opts _ _)
    · cases hstep
      exact h.move s.subscription trivial
  · cases hstep

/-- Data of the subscription, which is for the next height, or none and a reconnect. -/
private theorem data (h : FlowInv c s log) {resp : Option (FlowResponse ι)} {ctxErr : Bool}
    (hstep : s.step stringifyBlock (.data resp ctxErr) = some s')
    (ha : Delivers s (.data resp ctxErr : FlowAction ι β)) : FlowInv c s' (log ++ []) := by
  have hphase := h.phase
  simp only [FlowBlockSource.step] at hstep
  split at hstep
  · split at hstep
    · cases hstep
      exact h.move s.subscription trivial
    · cases hstep
      exact h.move s.subscription (phaseInv_reconnect s.opts _ _)
  · next resp hp =>
    rw [hp] at hphase
    obtain ⟨sub, hsub, hnext⟩ := hphase
    have hresp : resp.height = nextHeight c log := (ha sub hsub).trans hnext
    split at hstep
    · cases hstep
      -- the subscription goes on one above, while `currHeight` waits for the handler
      refine h.move _ ⟨hresp, { sub with delivered := sub.delivered + 1 }, ?_, ?_⟩
      · rw [hsub]
        rfl
      · show sub.startHeight + UInt64.ofNat (sub.delivered + 1) = _
        rw [UInt64.ofNat_add, ← UInt64.add_assoc, hnext]
        rfl
    · cases hstep
      exact h.move _ trivial
  · cases hstep

/-- The handler succeeds, for data of the subscription or for the block of a reconnect. -/
private theorem handled (h : FlowInv c s log)
    (hstep : s.step stringifyBlock (.handled true : FlowAction ι β) = some s') :
    FlowInv c s' (log ++ s.emit (.handled true : FlowAction ι β)) := by
  have hphase := h.phase
  simp only [FlowBlockSource.step, if_true] at hstep
  split at hstep
  · next resp block hp =>
    cases hstep
    rw [hp] at hphase
    obtain ⟨hresp, hblock, hsub⟩ := hphase
    have hemit : s.emit (.handled true : FlowAction ι β) = [.handled resp.height] := by
      simp only [FlowBlockSource.emit, hp]
      rw [hblock, hresp]
    rw [hemit]
    exact h.handle hresp hsub
  · next block hp =>
    cases hstep
    rw [hp] at hphase
    have hemit : s.emit (.handled true : FlowAction ι β) = [.handled (nextHeight c log)] := by
      simp only [FlowBlockSource.emit, hp]
      rw [hphase]
    -- here `currHeight` is incremented, and not set from the block
    rw [hemit, h.currHeight]
    exact h.handle rfl (phaseInv_resubscribe s.opts _ _)
  · cases hstep

theorem step {a : FlowAction ι β} (h : FlowInv c s log)
    (hstep : s.step stringifyBlock a = some s') (ha : Delivers s a) :
    FlowInv c s' (log ++ s.emit a) := by
  have hphase := h.phase
  cases a with
  | getLatestBlock result =>
    simp only [FlowBlockSource.step] at hstep
    split at hstep
    · next hp =>
      rw [hp] at hphase
      exact hphase.elim
    · next hp =>
      rw [hp] at hphase
      exact hphase.elim
    · cases hstep
  | subscribed ok =>
    simp only [FlowBlockSource.step] at hstep
    split at hstep
    · split at hstep
      · cases hstep
        exact h.ask _ h.opened
      · cases hstep
        exact h.ask s.subscription trivial
    · cases hstep
  | ctxDone =>
    simp only [FlowBlockSource.step] at hstep
    split at hstep
    · cases hstep
      exact h.move s.subscription trivial
    · cases hstep
  | errs ok ctxErr =>
    simp only [FlowBlockSource.step] at hstep
    split at hstep
    · split at hstep
      · cases hstep
        exact h.move s.subscription trivial
      · cases hstep
        exact h.move s.subscription (phaseInv_reconnect s.opts _ _)
    · cases hstep
  | data resp ctxErr => exact h.data hstep ha
  | getBlock event => exact h.getBlock hstep ha
  | handled ok =>
    cases ok with
    | false =>
      simp only [FlowBlockSource.step] at hstep
      split at hstep
      · cases hstep
        exact h.move s.subscription trivial
      · cases hstep
        exact h.move s.subscription trivial
      · cases hstep
    | true => exact h.handled hstep
  | resubscribe event =>
    simp only [FlowBlockSource.step] at hstep
    split at hstep
    · split at hstep
      · cases hstep
      · cases hstep
        exact h.askOrMove event s.subscription trivial
      · cases hstep
        exact h.askOrMove event _ h.opened
      · cases hstep
        exact h.askOrMove event s.subscription trivial
      · cases hstep
        exact h.askOrMove event s.subscription trivial
    · cases hstep

end FlowInv

theorem flowInv_run {stringifyBlock : FlowBlock β → Option δ} {c : UInt64}
    {s s' : FlowBlockSource ι δ} {log log' : List FlowOutput} {as : List (FlowAction ι β)}
    (hs : FlowInv c s log) (hdelivers : Meets (FlowBlockSource.step stringifyBlock) Delivers s as)
    (hrun : run (recorded (FlowBlockSource.step stringifyBlock) FlowBlockSource.emit) (s, log) as =
      some (s', log')) : FlowInv c s' log' := by
  refine run_invariant_of_meets (P := fun p : FlowBlockSource ι δ × List FlowOutput =>
    FlowInv c p.1 p.2) ?_ hrun (meets_recorded.2 hdelivers) hs
  intro p a p' hstep ha hp
  obtain ⟨hstep, hlog⟩ := recorded_eq_some.1 hstep
  rw [hlog]
  exact hp.step hstep ha

/-- However subscriptions, fetches and the handler fare, the heights handled are those from the
    start height on, and every subscription is asked for at the one after the last of them. -/
theorem flow_heights_consecutive {stringifyBlock : FlowBlock β → Option δ}
    {startHeight : Option UInt64} {opts : FlowBlockSourceOpts} {c : UInt64}
    {as : List (FlowAction ι β)} {s : FlowBlockSource ι δ} {log : List FlowOutput}
    (hstart : StartsAt startHeight as c)
    (hdelivers : Meets (FlowBlockSource.step stringifyBlock) Delivers (.new startHeight opts) as)
    (hrun : run (recorded (FlowBlockSource.step stringifyBlock) FlowBlockSource.emit)
      (.new startHeight opts, []) as = some (s, log)) :
    Consecutive c log ∧ (c.toNat + (handledOf log).length ≤ 2 ^ 64 →
      (handledOf log).map UInt64.toNat = List.range' c.toNat (handledOf log).length) := by
  have hinv : FlowInv c s log := by
    cases startHeight with
    | some height =>
      have hheight : height = c := hstart
      rw [hheight] at hdelivers hrun
      exact flowInv_run (.init c _) hdelivers hrun
    | none =>
      cases as with
      | nil => exact hstart.elim
      | cons a as =>
        cases a with
        | getLatestBlock result =>
          cases result with
          | none => exact hstart.elim
          | some block =>
            -- the latest block gives the height, as if it had been given
            have hheight : block.height = c := hstart
            obtain ⟨p, hfirst, hrest⟩ := run_cons.1 hrun
            cases hfirst
            have hmeets := (hdelivers _ rfl).2
            rw [hheight] at hmeets hrest
            exact flowInv_run (.init c _) hmeets hrest
        | _ => exact hstart.elim
  exact ⟨hinv.consecutive, hinv.consecutive.toNat_handled⟩

end FlowHeights

/-- The subscription at 7 delivers one block and fails; block 8 is fetched by its height at the
    second attempt, and one attempt to subscribe at 9 fails. -/
def reconnected : List (FlowAction Nat Unit) :=
  [.subscribed true, .data (some ⟨7, 70⟩) false, .getBlock (.returned (some ⟨7, ()⟩)),
    .handled true, .errs true false, .getBlock (.returned none), .getBlock .timer,
    .getBlock (.returned (some ⟨8, ()⟩)), .handled true, .resubscribe (.returned none),
    .resubscribe .timer, .resubscribe (.returned (some ())), .data (some ⟨9, 90⟩) false,
    .getBlock (.returned (some ⟨9, ()⟩)), .handled true]

/-- Blocks 7 to 9 are handled, the second of them in `reconnect`. -/
theorem flow_heights_consecutive_reconnected :
    handledOf [.subscribed 7, .handled 7, .handled 8, .subscribed 9, .subscribed 9,
        .handled 9] = [7, 8, 9] ∧
      Consecutive 7 [.subscribed 7, .handled 7, .handled 8, .subscribed 9, .subscribed 9,
        .handled 9] := by
  have hrun : run (recorded (FlowBlockSource.step fun _ : FlowBlock Unit => some ())
      FlowBlockSource.emit) (.new (some 7) ⟨none, none⟩, []) reconnected =
        some (⟨some 10, ⟨500, 3⟩, some ⟨9, 1⟩, .select⟩, [.subscribed 7, .handled 7, .handled 8,
          .subscribed 9, .subscribed 9, .handled 9]) := rfl
  refine ⟨by decide, (flow_heights_consecutive ?_ (by decide) hrun).1⟩
  rfl

end BlockFeed.Spec
