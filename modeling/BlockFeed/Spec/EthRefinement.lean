import BlockFeed.Native.EthForwarder
import BlockFeed.Spec.ForwarderRefinement

/-!
# The Ethereum forwarder refines the forwarder of the feed

An `EthBlockSource` that starts at a height fetches all blocks from there to the first header, and
from then on the block of each header. It posts one height after the other as long as the headers
of its subscription have consecutive numbers, of which the first is at most one below the start
height (`Announces`). Then every run with an Ethereum forwarder is a run of `Feed`
(`ethFeed_refines`).

Without a start height the first header decides where the source starts, so until then it stands
for every forwarder that starts at some tip.
-/

namespace BlockFeed.Spec

open BlockFeed.Native Transition

section EthRefinement

variable {δ η : Type}

/-- `BlockByNumber` returns the block it is asked for. The headers of a subscription come one after
    the other, from at most one below the height at which the source starts. -/
def Announces (s : EthSubscribe δ) : EthAction η → Prop
  | .header (some number) =>
    match s.newest with
    | some newest => number = newest + 1
    | none => s.source.currHeight.all fun height => height.toNat ≤ number + 1
  | .block (some block) =>
    match s.phase with
    | .catchUp _ => s.source.currHeight.map UInt64.toNat = some block.number
    | _ => True
  | _ => True

instance (s : EthSubscribe δ) (a : EthAction η) : Decidable (Announces s a) := by
  unfold Announces
  split
  · split <;> infer_instance
  · split <;> infer_instance
  · infer_instance

/-- The source is in the loop up to the number of its first header. -/
def CatchingUp (s : EthSubscribe δ) (number : Nat) (height : UInt64) : Prop :=
  s.newest = some number ∧ s.source.currHeight = some height ∧ height.toNat ≤ number

/-- What the steps of a source keep. -/
def EthOk (s : EthSubscribe δ) : Prop :=
  match s.phase with
  | .subscribeNewHead | .select =>
    s.source.isBehind = (s.newest.isNone && s.source.currHeight.isSome)
  | .catchUp number => ∃ height, CatchingUp s number height
  | .handleCaughtUp number block => CatchingUp s number block.height
  | .newHead number => s.newest = some number ∧ s.source.isBehind = false
  | .handleNewHead block =>
    s.newest.map UInt64.ofNat = some block.height ∧ s.source.isBehind = false
  | .returned => True

/-- The forwarders of `Feed` that a source stands for between two headers. -/
def EthWaits (s : EthSubscribe δ) (f : Forwarder) : Prop :=
  match s.newest, s.source.currHeight with
  | some newest, _ => f = .subscribed (UInt64.ofNat (newest + 1))
  | none, some height => f = .subscribed height
  -- the first header is not known yet
  | none, none => ∃ tip, f = .subscribed tip

/-- The forwarders of `Feed` that a source stands for. -/
def EthStands (s : EthSubscribe δ) (f : Forwarder) : Prop :=
  match s.phase with
  | .subscribeNewHead | .select => EthWaits s f
  | .catchUp _ => s.source.currHeight.map Forwarder.subscribed = some f
  | .newHead number => f = .subscribed (UInt64.ofNat number)
  | .handleCaughtUp _ block | .handleNewHead block => f = .subscribed block.height
  -- `main` is about to end
  | .returned => f = .stopped

theorem exists_ethWaits (s : EthSubscribe δ) : ∃ f, EthWaits s f := by
  unfold EthWaits
  split
  · exact ⟨_, rfl⟩
  · exact ⟨_, rfl⟩
  · exact ⟨.subscribed 0, 0, rfl⟩

theorem exists_ethStands {s : EthSubscribe δ} (h : EthOk s) : ∃ f, EthStands s f := by
  cases hp : s.phase with
  | subscribeNewHead => simpa only [EthStands, hp] using exists_ethWaits s
  | select => simpa only [EthStands, hp] using exists_ethWaits s
  | catchUp number =>
    simp only [EthOk, hp] at h
    obtain ⟨height, -, hcurr, -⟩ := h
    exact ⟨.subscribed height, by simp only [EthStands, hp, hcurr, Option.map_some]⟩
  | _ => exact ⟨_, by simp only [EthStands, hp]; rfl⟩

/-! ### The outcomes of a step -/

theorem ethOk_stop (s : EthSubscribe δ) : EthOk s.stop := trivial

theorem ethStands_stop {s : EthSubscribe δ} {f : Forwarder} (h : EthStands s.stop f) :
    f = .stopped :=
  h

/-- The loop is left when the next height is the one above the header. -/
theorem loop_spec {s : EthSubscribe δ} {number : Nat} {height : UInt64}
    (hnewest : s.newest = some number) (hcurr : s.source.currHeight = some height)
    (hle : height.toNat ≤ number + 1) :
    EthOk (s.loop number) ∧ ∀ f, EthStands (s.loop number) f → f = .subscribed height := by
  unfold EthSubscribe.loop
  rw [hcurr]
  simp only [Option.any_some, decide_eq_true_eq]
  split
  · next hnumber =>
    refine ⟨⟨height, hnewest, hcurr, hnumber⟩, fun f hf => ?_⟩
    simp only [EthStands, hcurr, Option.map_some, Option.some.injEq] at hf
    exact hf.symm
  · next hnumber =>
    have hnext : height = UInt64.ofNat (number + 1) := by
      have heq : height.toNat = number + 1 := by omega
      rw [← heq, UInt64.ofNat_toNat]
    refine ⟨?_, fun f hf => ?_⟩
    · simp [EthOk, hnewest]
    · have hf' : EthWaits s f := hf
      simp only [EthWaits, hnewest] at hf'
      rw [hf', hnext]

/-- The next round of the loop. -/
theorem loop_advance_spec {s : EthSubscribe δ} {number : Nat} {block : BlockDocument δ}
    (h : CatchingUp s number block.height) :
    EthOk ((s.take block).advance.loop number) ∧
      ∀ f, EthStands ((s.take block).advance.loop number) f →
        f = .subscribed (block.height + 1) := by
  obtain ⟨hnewest, hcurr, hle⟩ := h
  refine loop_spec hnewest ?_ ?_
  · simp [EthSubscribe.advance, EthSubscribe.take, hcurr]
  · have hadd : (block.height + 1).toNat = (block.height.toNat + 1) % 2 ^ 64 := UInt64.toNat_add ..
    omega

variable {stringifyBlock : EthBlock η → Option δ} {s s' : EthSubscribe δ}

/-- A header settles which height comes next, if it was not settled before. -/
theorem header_quiet {number : Nat} (hok : EthOk s)
    (hannounces : Announces s (.header (some number) : EthAction η))
    (hstep : s.step stringifyBlock (.header (some number)) = some s') :
    EthOk s' ∧ ∀ f, EthStands s' f → EthStands s f := by
  simp only [EthSubscribe.step] at hstep
  split at hstep
  · next hp =>
    simp only [EthOk, hp] at hok
    simp only [Announces] at hannounces
    simp only [EthStands, hp]
    split at hstep
    · next hbehind =>
      cases hstep
      rw [hok, Bool.and_eq_true, Option.isNone_iff_eq_none] at hbehind
      obtain ⟨hnone, hsome⟩ := hbehind
      obtain ⟨height, hcurr⟩ := Option.isSome_iff_exists.1 hsome
      have hle : height.toNat ≤ number + 1 := by simpa [hnone, hcurr] using hannounces
      obtain ⟨hok', hstands⟩ := loop_spec (s := { s with newest := some number }) rfl hcurr hle
      refine ⟨hok', fun f hf => ?_⟩
      simp only [EthWaits, hnone, hcurr]
      exact hstands f hf
    · next hbehind =>
      cases hstep
      rw [Bool.not_eq_true] at hbehind
      refine ⟨⟨rfl, hbehind⟩, fun f hf => ?_⟩
      have hf' : f = .subscribed (UInt64.ofNat number) := hf
      unfold EthWaits
      split
      · next newest hnewest =>
        have hnumber : number = newest + 1 := by simpa [hnewest] using hannounces
        rw [← hnumber]
        exact hf'
      · next height hnewest hcurr => simp [hnewest, hcurr, hbehind] at hok
      -- without a start height the header is the tip
      · exact ⟨_, hf'⟩
  · cases hstep

/-- The block that comes is the one at the height. -/
theorem block_quiet {block : EthBlock η} (hok : EthOk s)
    (hannounces : Announces s (.block (some block)))
    (hstep : s.step stringifyBlock (.block (some block)) = some s') :
    EthOk s' ∧ ∀ f, EthStands s' f → EthStands s f ∨ f = .stopped := by
  simp only [EthSubscribe.step] at hstep
  split at hstep
  · next number hp =>
    simp only [EthOk, hp] at hok
    obtain ⟨height, hnewest, hcurr, hle⟩ := hok
    split at hstep
    · cases hstep
      exact ⟨ethOk_stop s, fun f hf => .inr (ethStands_stop hf)⟩
    · cases hstep
      have hnumber : height = UInt64.ofNat block.number := by
        have hasked : height.toNat = block.number := by
          simpa [Announces, hp, hcurr] using hannounces
        rw [← hasked, UInt64.ofNat_toNat]
      refine ⟨⟨hnewest, hnumber ▸ hcurr, hnumber ▸ hle⟩, fun f hf => .inl ?_⟩
      simp only [EthStands] at hf
      simp only [EthStands, hp, hcurr, Option.map_some, Option.some.injEq]
      rw [hf, hnumber]
  · next number hp =>
    simp only [EthOk, hp] at hok
    split at hstep
    · cases hstep
      exact ⟨ethOk_stop s, fun f hf => .inr (ethStands_stop hf)⟩
    · cases hstep
      refine ⟨⟨by rw [hok.1]; rfl, hok.2⟩, fun f hf => .inl ?_⟩
      simp only [EthStands] at hf
      simp only [EthStands, hp]
      exact hf
  · cases hstep

/-- Any other call or receive changes nothing, or ends the source. -/
theorem other_quiet {a : EthAction η} (hok : EthOk s)
    (hheader : ∀ number, a ≠ .header (some number)) (hblock : ∀ block, a ≠ .block (some block))
    (hhandled : ∀ ok, a ≠ .handled ok)
    (hstep : s.step stringifyBlock a = some s') :
    EthOk s' ∧ ∀ f, EthStands s' f → EthStands s f ∨ f = .stopped := by
  have hstop : EthOk s.stop ∧ ∀ f, EthStands s.stop f → EthStands s f ∨ f = .stopped :=
    ⟨ethOk_stop s, fun f hf => .inr (ethStands_stop hf)⟩
  unfold EthSubscribe.step at hstep
  split at hstep
  · split at hstep
    · next hp =>
      split at hstep
      · cases hstep
        simp only [EthOk, hp] at hok
        refine ⟨hok, fun f hf => .inl ?_⟩
        have hf' : EthWaits s f := hf
        simpa only [EthStands, hp] using hf'
      · cases hstep
        exact hstop
    · cases hstep
  · split at hstep
    · cases hstep
      exact hstop
    · cases hstep
  · split at hstep
    · cases hstep
      exact hstop
    · cases hstep
  · split at hstep
    · cases hstep
      exact hstop
    · cases hstep
  · exact absurd rfl (hheader _)
  · split at hstep
    · cases hstep
      exact hstop
    · cases hstep
      exact hstop
    · cases hstep
  · exact absurd rfl (hblock _)
  · exact absurd rfl (hhandled _)

/-- The handler runs while `handling` has a block. -/
theorem ne_handled_of_handling {a : EthAction η} (h : s.handling = none)
    (hstep : s.step stringifyBlock a = some s') (ok : Bool) : a ≠ .handled ok := by
  rintro rfl
  unfold EthSubscribe.handling at h
  simp only [EthSubscribe.step] at hstep
  split at hstep
  · next hp => simp [hp] at h
  · next hp => simp [hp] at h
  · cases hstep

/-- After the handler the next height is the one above. -/
theorem handled_spec {block : BlockDocument δ} (hok : EthOk s) (hblock : s.handling = some block)
    (hstep : s.step stringifyBlock (.handled true : EthAction η) = some s') :
    EthOk s' ∧ ∀ f, EthStands s' f → f = .subscribed (block.height + 1) := by
  unfold EthSubscribe.handling at hblock
  simp only [EthSubscribe.step] at hstep
  split at hblock
  · next number _ hp =>
    cases hblock
    simp only [hp, if_true, Option.some.injEq] at hstep
    simp only [EthOk, hp] at hok
    subst hstep
    exact loop_advance_spec hok
  · next hp =>
    cases hblock
    simp only [hp, if_true, Option.some.injEq] at hstep
    simp only [EthOk, hp] at hok
    obtain ⟨number, hnewest, hheight⟩ := Option.map_eq_some_iff.1 hok.1
    subst hstep
    refine ⟨?_, fun f hf => ?_⟩
    · simp [EthOk, EthSubscribe.take, hnewest, hok.2]
    · simp only [EthStands, EthWaits, EthSubscribe.take, hnewest] at hf
      rw [hf, ← hheight, UInt64.ofNat_add]
      rfl
  · cases hblock

/-- An error of the handler ends `Subscribe`. -/
theorem stop_of_failed {block : BlockDocument δ} (hblock : s.handling = some block)
    (hstep : s.step stringifyBlock (.handled false : EthAction η) = some s') : s' = s.stop := by
  unfold EthSubscribe.handling at hblock
  simp only [EthSubscribe.step] at hstep
  split at hblock
  · next hp => simpa [hp] using hstep.symm
  · next hp => simpa [hp] using hstep.symm
  · cases hblock

/-- A source in its handler stands for the height of the block. -/
theorem ethStands_of_handling {block : BlockDocument δ} (hblock : s.handling = some block) :
    EthStands s (.subscribed block.height) := by
  unfold EthSubscribe.handling at hblock
  split at hblock
  · next hp =>
    cases hblock
    simp only [EthStands, hp]
  · next hp =>
    cases hblock
    simp only [EthStands, hp]
  · cases hblock

/-- An Ethereum source posts one height after the other. -/
def ethPosts (stringifyBlock : EthBlock η → Option δ) :
    Posts (ethBlockSource stringifyBlock) Announces where
  Ok := EthOk
  Stands := EthStands
  stands := exists_ethStands
  ok_subscribe := by
    intro startHeight
    simp [EthOk, ethBlockSource, EthSubscribe.new, EthBlockSource.new]
  subscribe_some := id
  subscribe_none := id
  quiet := by
    intro s s' a hok hhandling hannounces hstep
    replace hstep : s.step stringifyBlock a = some s' := hstep
    have hhandled : ∀ ok, a ≠ .handled ok := ne_handled_of_handling hhandling hstep
    cases a with
    | header number =>
      cases number with
      | none => exact other_quiet hok (by simp) (by simp) hhandled hstep
      | some number =>
        obtain ⟨hok', hstands⟩ := header_quiet hok hannounces hstep
        exact ⟨hok', fun f hf => .inl (hstands f hf)⟩
    | block result =>
      cases result with
      | none => exact other_quiet hok (by simp) (by simp) hhandled hstep
      | some block => exact block_quiet hok hannounces hstep
    | _ => exact other_quiet hok (by simp) (by simp) hhandled hstep
  handled := by
    intro s s' block hok hblock hstep
    replace hstep : s.step stringifyBlock (.handled true) = some s' := hstep
    obtain ⟨hok', hstands⟩ := handled_spec hok hblock hstep
    exact ⟨hok', ethStands_of_handling hblock, fun f hf => .inl (hstands f hf)⟩
  failed := by
    intro s s' block hok hblock hstep
    replace hstep : s.step stringifyBlock (.handled false) = some s' := hstep
    cases stop_of_failed hblock hstep
    exact ⟨ethOk_stop s, ethStands_of_handling hblock, fun f hf => ethStands_stop hf⟩

/-! ### Call by call and event by event -/

/-- The calls come out as `calls` says. -/
def AnsweredBy (calls : EthCalls η δ) (s : EthSubscribe δ) : EthAction η → Prop
  | .subscribed ok => ok = true
  | .block result =>
    match s.phase with
    | .catchUp _ => ∀ height, s.source.currHeight = some height →
        result = calls.blockByNumber height.toNat
    | .newHead number => result = calls.blockByNumber number
    | _ => True
  | .handled ok => ∀ block, s.handling = some block → ok = calls.handler block
  | _ => True

/-- What the `select` sees of an action. -/
def eventOf : EthAction η → Option EthEvent
  | .ctxDone => some .ctxDone
  | .subErr => some .subErr
  | .header number => some (.header number)
  | _ => none

/-- The loop goes on from this source. -/
def LoopLeads (calls : EthCalls η δ) (number : Nat) (source t : EthBlockSource δ) : Prop :=
  ∃ u, LoopEnds (EthBlockSource.catchUp calls number) source u ∧
    t = if u.returned then u else { u with isBehind := false }

/-- The rest of an event leads to this source. -/
def Leads (calls : EthCalls η δ) (s : EthSubscribe δ) (t : EthBlockSource δ) : Prop :=
  match s.phase with
  | .subscribeNewHead | .select | .returned => t = s.source
  | .catchUp number => LoopLeads calls number s.source t
  | .handleCaughtUp number block =>
    if calls.handler block then LoopLeads calls number (s.take block).advance.source t
    else t = s.stop.source
  | .newHead number => t = s.source.pass calls number fun _ => UInt64.ofNat number
  | .handleNewHead block =>
    t = if calls.handler block then (s.take block).source else s.stop.source

/-- The source knows whether `Subscribe` has returned. -/
def Returned (s : EthSubscribe δ) : Prop := s.source.returned = true ↔ s.phase = .returned

theorem Returned.going (h : Returned s) (hp : s.phase ≠ .returned) : s.source.returned = false :=
  Bool.eq_false_iff.2 fun hreturned => hp (h.1 hreturned)

theorem returned_of_going (h : s.source.returned = false) (hp : s.phase ≠ .returned) :
    Returned s := by
  simp [Returned, h, hp]

theorem returned_stop (s : EthSubscribe δ) : Returned s.stop := iff_of_true rfl rfl

theorem subscribe_concat {calls : EthCalls η δ} {source u t : EthBlockSource δ}
    {events : List EthEvent} {event : EthEvent}
    (h : EthBlockSource.Subscribe calls source events u) (hu : u.returned = false)
    (hevent : u.Receives calls event t) :
    EthBlockSource.Subscribe calls source (events ++ [event]) t := by
  induction events generalizing source with
  | nil =>
    cases h
    simp only [List.nil_append, EthBlockSource.Subscribe, hu, Bool.false_eq_true, if_false]
    exact ⟨t, hevent, rfl⟩
  | cons first events ih =>
    simp only [EthBlockSource.Subscribe] at h
    simp only [List.cons_append, EthBlockSource.Subscribe]
    split at h
    · next hreturned =>
      cases h
      rw [hreturned] at hu
      cases hu
    · next hreturned =>
      rw [if_neg hreturned]
      obtain ⟨v, hfirst, hrest⟩ := h
      exact ⟨v, hfirst, ih hrest⟩

variable {calls : EthCalls η δ}

/-- The loop's condition, and its next round. -/
theorem leads_loop {number : Nat} {t : EthBlockSource δ} (hreturned : s.source.returned = false)
    (h : Leads calls (s.loop number) t) : LoopLeads calls number s.source t := by
  unfold EthSubscribe.loop at h
  split at h
  · exact h
  · next hcond =>
    refine ⟨s.source, .leave ?_, ?_⟩
    · unfold EthBlockSource.catchUp
      rw [hreturned]
      cases hcurr : s.source.currHeight with
      | none => rfl
      | some height =>
        have hlt : ¬ height.toNat ≤ number := by simpa [hcurr] using hcond
        simp [hlt]
    · have ht : t = { s.source with isBehind := false } := h
      rw [ht, if_neg (by rw [hreturned]; exact Bool.false_ne_true)]

theorem returned_loop {number : Nat} (hreturned : s.source.returned = false) :
    Returned (s.loop number) := by
  unfold EthSubscribe.loop
  split
  · simp [Returned, hreturned]
  · simp [Returned, hreturned]

/-- A header starts an event. -/
theorem receives_of_leads {number : Nat} {t : EthBlockSource δ}
    (hreturned : s.source.returned = false)
    (hstep : s.step stringifyBlock (.header (some number) : EthAction η) = some s')
    (h : Leads calls s' t) : s.source.Receives calls (.header (some number)) t := by
  simp only [EthSubscribe.step] at hstep
  split at hstep
  · simp only [EthBlockSource.Receives]
    split at hstep
    · next hbehind =>
      cases hstep
      rw [if_pos hbehind]
      exact leads_loop (s := { s with newest := some number }) hreturned h
    · next hbehind =>
      cases hstep
      rw [if_neg hbehind]
      exact h
  · cases hstep

/-- A round of the loop that ends `Subscribe`. -/
theorem loopLeads_stop {number : Nat} {source : EthBlockSource δ}
    (hround : source.catchUp calls number = some { source with returned := true }) :
    LoopLeads calls number source { source with returned := true } := by
  refine ⟨_, .next hround (.leave ?_), by rw [if_pos rfl]⟩
  simp [EthBlockSource.catchUp]

/-- A round of the loop, from its `BlockByNumber` to the next one. -/
theorem leads_catchUp {number : Nat} {result : Option (EthBlock η)} {t : EthBlockSource δ}
    {height : UInt64} (hreturned : s.source.returned = false)
    (hcurr : s.source.currHeight = some height) (hle : height.toNat ≤ number)
    (hresult : result = calls.blockByNumber height.toNat) (hp : s.phase = .catchUp number)
    (hstep : s.step calls.stringifyBlock (.block result) = some s') (h : Leads calls s' t) :
    LoopLeads calls number s.source t := by
  have hround : s.source.catchUp calls number =
      let u := s.source.pass calls height.toNat fun block => UInt64.ofNat block.number
      if u.returned then some u else some { u with currHeight := some (height + 1) } := by
    simp only [EthBlockSource.catchUp, hreturned, hcurr, hle, if_true, Bool.false_eq_true, if_false]
  have hstop : (∀ u, s.source.pass calls height.toNat (fun block => UInt64.ofNat block.number) = u →
      u = { s.source with returned := true }) → t = s.stop.source →
      LoopLeads calls number s.source t := by
    rintro hpass rfl
    exact loopLeads_stop (by rw [hround, hpass _ rfl]; rfl)
  cases result with
  | none =>
    simp only [EthSubscribe.step, hp, Option.some.injEq] at hstep
    subst hstep
    exact hstop (by rintro _ rfl; simp only [EthBlockSource.pass, ← hresult]) h
  | some block =>
    simp only [EthSubscribe.step, hp] at hstep
    split at hstep
    · next hdata =>
      cases hstep
      exact hstop (by rintro _ rfl; simp only [EthBlockSource.pass, ← hresult, hdata]) h
    · next data hdata =>
      cases hstep
      simp only [Leads] at h
      split at h
      · next hhandler =>
        obtain ⟨u, hends, ht⟩ := h
        refine ⟨u, .next ?_ hends, ht⟩
        rw [hround]
        simp [EthBlockSource.pass, ← hresult, hdata, hhandler, hreturned, EthSubscribe.advance,
          EthSubscribe.take, hcurr]
      · next hhandler =>
        exact hstop (by rintro _ rfl; simp [EthBlockSource.pass, ← hresult, hdata, hhandler]) h

/-- `BlockByNumber` for a header. -/
theorem leads_newHead {number : Nat} {result : Option (EthBlock η)} {t : EthBlockSource δ}
    (hresult : result = calls.blockByNumber number) (hp : s.phase = .newHead number)
    (hstep : s.step calls.stringifyBlock (.block result) = some s') (h : Leads calls s' t) :
    t = s.source.pass calls number fun _ => UInt64.ofNat number := by
  cases result with
  | none =>
    simp only [EthSubscribe.step, hp, Option.some.injEq] at hstep
    subst hstep
    simp only [EthBlockSource.pass, ← hresult]
    exact h
  | some block =>
    simp only [EthSubscribe.step, hp] at hstep
    split at hstep
    · next hdata =>
      cases hstep
      simp only [EthBlockSource.pass, ← hresult, hdata]
      exact h
    · next data hdata =>
      cases hstep
      simp only [EthBlockSource.pass, ← hresult, hdata]
      exact h

/-- What the handler's return leads to, its call led to. -/
theorem leads_handled {ok : Bool} (hreturned : Returned s)
    (hanswered : AnsweredBy calls s (.handled ok : EthAction η))
    (hstep : s.step calls.stringifyBlock (.handled ok) = some s') :
    Returned s' ∧ ∀ t, Leads calls s' t → Leads calls s t := by
  unfold AnsweredBy EthSubscribe.handling at hanswered
  simp only [EthSubscribe.step] at hstep
  split at hstep
  · next number block hp =>
    have hgoes := hreturned.going (by simp [hp])
    have hok : calls.handler block = ok := by simpa [hp, eq_comm] using hanswered
    cases ok with
    | true =>
      cases hstep
      refine ⟨returned_loop hgoes, fun t ht => ?_⟩
      simp only [Leads, hp, hok, if_true]
      exact leads_loop hgoes ht
    | false =>
      cases hstep
      refine ⟨returned_stop s, fun t ht => ?_⟩
      simp only [Leads, hp, hok, Bool.false_eq_true, if_false]
      exact ht
  · next block hp =>
    have hgoes := hreturned.going (by simp [hp])
    have hok : calls.handler block = ok := by simpa [hp, eq_comm] using hanswered
    cases ok with
    | true =>
      cases hstep
      refine ⟨returned_of_going hgoes (by simp), fun t ht => ?_⟩
      simp only [Leads, hp, hok, if_true]
      exact ht
    | false =>
      cases hstep
      refine ⟨returned_stop s, fun t ht => ?_⟩
      simp only [Leads, hp, hok, Bool.false_eq_true, if_false]
      exact ht
  · cases hstep

/-- What `BlockByNumber` leads to, waiting for it led to. -/
theorem leads_block {result : Option (EthBlock η)} (hloop : ∀ number, s.phase = .catchUp number →
      ∃ height, s.source.currHeight = some height ∧ height.toNat ≤ number)
    (hreturned : Returned s) (hanswered : AnsweredBy calls s (.block result))
    (hstep : s.step calls.stringifyBlock (.block result) = some s') :
    Returned s' ∧ ∀ t, Leads calls s' t → Leads calls s t := by
  have hmoves : Returned s' := by
    cases result with
    | none =>
      simp only [EthSubscribe.step] at hstep
      split at hstep
      · cases hstep
        exact returned_stop s
      · cases hstep
        exact returned_stop s
      · cases hstep
    | some block =>
      simp only [EthSubscribe.step] at hstep
      split at hstep
      · next hp =>
        split at hstep
        · cases hstep
          exact returned_stop s
        · cases hstep
          exact returned_of_going (hreturned.going (by simp [hp])) (by simp)
      · next hp =>
        split at hstep
        · cases hstep
          exact returned_stop s
        · cases hstep
          exact returned_of_going (hreturned.going (by simp [hp])) (by simp)
      · cases hstep
  refine ⟨hmoves, fun t ht => ?_⟩
  cases hp : s.phase with
  | catchUp number =>
    obtain ⟨height, hcurr, hle⟩ := hloop number hp
    simp only [AnsweredBy, hp] at hanswered
    simp only [Leads, hp]
    exact leads_catchUp (hreturned.going (by simp [hp])) hcurr hle (hanswered height hcurr) hp
      hstep ht
  | newHead number =>
    simp only [AnsweredBy, hp] at hanswered
    simp only [Leads, hp]
    exact leads_newHead hanswered hp hstep ht
  | _ => cases result <;> simp [EthSubscribe.step, hp] at hstep

/-- The loop asks for a block only at a height up to the number of the header. -/
def LoopEntered (s : EthSubscribe δ) : Prop :=
  ∀ number, s.phase = .catchUp number →
    ∃ height, s.source.currHeight = some height ∧ height.toNat ≤ number

theorem loopEntered_of_ne (h : ∀ number, s.phase ≠ .catchUp number) : LoopEntered s :=
  fun number hp => absurd hp (h number)

theorem loopEntered_loop (s : EthSubscribe δ) (number : Nat) : LoopEntered (s.loop number) := by
  unfold EthSubscribe.loop
  split
  · next hcond =>
    rintro _ ⟨⟩
    simpa [Option.any_eq_true] using hcond
  · exact loopEntered_of_ne (by simp)

theorem loopEntered_step {a : EthAction η} (hstep : s.step stringifyBlock a = some s') :
    LoopEntered s' := by
  have hstop : LoopEntered s.stop := loopEntered_of_ne (by simp [EthSubscribe.stop])
  unfold EthSubscribe.step at hstep
  repeat' split at hstep
  all_goals
    cases hstep
  all_goals
    first
    | exact hstop
    | exact loopEntered_loop _ _
    | exact loopEntered_of_ne (by simp)

/-- What the calls of a source do in a run, its events do at once. -/
structure EventsMatched (calls : EthCalls η δ) (startHeight : Option UInt64)
    (as : List (EthAction η)) (s : EthSubscribe δ) : Prop where
  loop : LoopEntered s
  returned : Returned s
  leads : ∀ t, Leads calls s t →
    EthBlockSource.Subscribe calls (.new startHeight) (as.filterMap eventOf) t

theorem eventsMatched_init (calls : EthCalls η δ) (startHeight : Option UInt64) :
    EventsMatched calls startHeight [] (.new startHeight) where
  loop := loopEntered_of_ne (by simp [EthSubscribe.new])
  returned := returned_of_going rfl (by simp [EthSubscribe.new])
  leads := by
    intro t ht
    exact ht

/-- An event that the `select` sees. -/
private theorem EventsMatched.event {startHeight : Option UInt64} {as : List (EthAction η)}
    (h : EventsMatched calls startHeight as s) {a : EthAction η} {event : EthEvent}
    (hevent : eventOf a = some event) (hp : s.phase = .select) (hloop : LoopEntered s')
    (hreturned : Returned s')
    (hreceives : ∀ t, Leads calls s' t → s.source.Receives calls event t) :
    EventsMatched calls startHeight (as ++ [a]) s' where
  loop := hloop
  returned := hreturned
  leads := by
    intro t ht
    have hsofar := h.leads s.source (by simp only [Leads, hp])
    rw [List.filterMap_append]
    simp only [List.filterMap_cons, List.filterMap_nil, hevent]
    exact subscribe_concat hsofar (h.returned.going (by simp [hp])) (hreceives t ht)

/-- An event that ends `Subscribe`. -/
private theorem EventsMatched.stop {startHeight : Option UInt64} {as : List (EthAction η)}
    (h : EventsMatched calls startHeight as s) {a : EthAction η}
    (hstop : a = .ctxDone ∨ a = .subErr ∨ a = .header none)
    (hstep : s.step calls.stringifyBlock a = some s') :
    EventsMatched calls startHeight (as ++ [a]) s' := by
  have hloop := loopEntered_step hstep
  rcases hstop with rfl | rfl | rfl
  all_goals
    simp only [EthSubscribe.step] at hstep
    split at hstep
    · next hp =>
      cases hstep
      exact h.event rfl hp hloop (returned_stop s) fun t ht => ht
    · cases hstep

theorem eventsMatched_step {startHeight : Option UInt64} {as : List (EthAction η)}
    (h : EventsMatched calls startHeight as s) {a : EthAction η}
    (hanswered : AnsweredBy calls s a) (hstep : s.step calls.stringifyBlock a = some s') :
    EventsMatched calls startHeight (as ++ [a]) s' := by
  have hloop := loopEntered_step hstep
  -- an action that is not an event
  have hcall : eventOf a = none → (Returned s' ∧ ∀ t, Leads calls s' t → Leads calls s t) →
      EventsMatched calls startHeight (as ++ [a]) s' := by
    intro hevent hmoves
    refine ⟨hloop, hmoves.1, fun t ht => ?_⟩
    rw [List.filterMap_append]
    simpa [hevent] using h.leads t (hmoves.2 t ht)
  cases a with
  | subscribed ok =>
    cases (show ok = true from hanswered)
    simp only [EthSubscribe.step, if_true] at hstep
    split at hstep
    · next hp =>
      cases hstep
      refine hcall rfl ⟨returned_of_going (h.returned.going (by simp [hp])) (by simp), ?_⟩
      intro t ht
      simp only [Leads, hp]
      exact ht
    · cases hstep
  | block result => exact hcall rfl (leads_block h.loop h.returned hanswered hstep)
  | handled ok => exact hcall rfl (leads_handled h.returned hanswered hstep)
  | ctxDone => exact h.stop (.inl rfl) hstep
  | subErr => exact h.stop (.inr (.inl rfl)) hstep
  | header number =>
    cases number with
    | none => exact h.stop (.inr (.inr rfl)) hstep
    | some number =>
      have hp : s.phase = .select := by
        simp only [EthSubscribe.step] at hstep
        split at hstep
        · assumption
        · cases hstep
      have hgoes := h.returned.going (by simp [hp])
      refine h.event rfl hp hloop ?_ fun t ht => receives_of_leads hgoes hstep ht
      simp only [EthSubscribe.step, hp] at hstep
      split at hstep
      · cases hstep
        exact returned_loop hgoes
      · cases hstep
        exact returned_of_going hgoes (by simp)

/-- Between two events, and after the last one, a run of the calls has done what
    `EthBlockSource.Subscribe` says of its events. -/
theorem subscribe_of_run {startHeight : Option UInt64} {as : List (EthAction η)}
    (hrun : run (EthSubscribe.step calls.stringifyBlock) (.new startHeight) as = some s)
    (hanswered : Meets (EthSubscribe.step calls.stringifyBlock) (AnsweredBy calls)
      (.new startHeight) as) (hp : s.phase = .select ∨ s.phase = .returned) :
    EthBlockSource.Subscribe calls (.new startHeight) (as.filterMap eventOf) s.source := by
  have hmatched : EventsMatched calls startHeight as s :=
    run_invariant_history_of_meets (fun _ _ _ _ hstep ha h => eventsMatched_step h ha hstep) hrun
      hanswered (eventsMatched_init calls startHeight)
  apply hmatched.leads
  rcases hp with hp | hp
  · simp only [Leads, hp]
  · simp only [Leads, hp]

/-! ### The forwarder -/

variable {κ ι T : Type} {ρ : Type} [DecidableEq ρ] [DecidableEq κ] [DecidableEq ι] [LinearOrder T]
  [JobText ι T] [LinearOrder (BlockDocument δ)]

/-- Every run of a feed with an Ethereum forwarder is a run of `Feed`, with the same stream, router,
    stores and shards at its end, and the same calls of the other processes in the same order. -/
theorem ethFeed_refines {batchSize : Nat} {webhookStreams : List ρ}
    {stringifyBlock : EthBlock η → Option δ}
    {as : List (ForwarderFeedAction ρ κ ι (EthAction η) δ)}
    {s : ForwarderFeed ρ κ ι T (EthSubscribe δ) δ}
    (hrun : run (ForwarderFeed.step (ethBlockSource stringifyBlock) batchSize webhookStreams)
      .init as = some s)
    (hannounces : Meets
      (ForwarderFeed.step (ethBlockSource stringifyBlock) batchSize webhookStreams)
      (SourceCalls Announces) (.init : ForwarderFeed ρ κ ι T (EthSubscribe δ) δ) as) :
    ∃ (bs : List (FeedAction ρ κ ι δ)) (f : Forwarder),
      run (Feed.step batchSize webhookStreams) .init bs = some { s.feed with forwarder := f } ∧
        bs.filter (fun b => ¬ ForwarderFeed.isForwarder b) =
          as.filterMap ForwarderFeed.others :=
  forwarderFeed_refines (ethPosts stringifyBlock) hrun hannounces

end EthRefinement

/-- The router stores a block. -/
def storeOne : List (FeedAction Nat Nat Nat Nat) :=
  [.router .readBacklog, .router .readNew, .router (.putBlocks .ok), .router (.flush 0 .ok),
    .router (.xAckDel .ok)]

/-- Nothing is stored, so the source starts at the first header, 7. When block 7 is stored and
    `main` starts again, the first header is 9; the reply for block 8 is lost. -/
def catchesUp : List (ForwarderFeedAction Nat Nat Nat (EthAction Nat) Nat) :=
  [.readCache, .readWrapped, .source (.subscribed true), .source (.header (some 7)),
    .source (.block (some ⟨7, 70⟩)), .xAdd .ok] ++ storeOne.map .other ++
  [.crash, .readCache, .source (.subscribed true), .source (.header (some 9)),
    .source (.block (some ⟨7, 70⟩)), .xAdd .ok, .source (.block (some ⟨8, 80⟩)),
    .xAdd .executedThenFailed, .crash]

/-- In `Feed` the forwarder posts block 7, and after the crash blocks 7 and 8. -/
theorem ethFeed_refines_catchesUp :
    ∃ (bs : List (FeedAction Nat Nat Nat Nat)) (s : Feed Nat Nat Nat TupleText Nat),
      run (Feed.step 1 [0]) .init bs = some s ∧
        s.blockStream.entries.map (fun e => e.2.height) = [7, 8] ∧
        bs.filter (fun b => ¬ ForwarderFeed.isForwarder b) = storeOne := by
  have hrun : (run (ForwarderFeed.step
      (ethBlockSource fun b : EthBlock Nat => some b.rest) 1 [0])
      (.init : ForwarderFeed Nat Nat Nat TupleText (EthSubscribe Nat) Nat) catchesUp).any
        (fun s => s.feed.blockStream.entries.map (fun e => e.2.height) = [7, 8]) = true := by
    decide +kernel
  obtain ⟨s, hs, hposted⟩ := (Option.any_eq_true ..).1 hrun
  obtain ⟨bs, f, hbs, hothers⟩ := ethFeed_refines hs (by decide +kernel)
  exact ⟨bs, _, hbs, of_decide_eq_true hposted, hothers⟩

end BlockFeed.Spec
