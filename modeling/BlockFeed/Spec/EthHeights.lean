import BlockFeed.Native.EthSource

/-!
# The heights that the Ethereum source forwards

`Subscribe` should hand on every height from the start height to the number of the latest header.
It closes a gap only at the first header: a header that comes later is taken for the one after
the header before it. So headers that skip a number leave a gap, and after a first header below
the start height the next one is handed on whatever its number (`eth_forwards_iff`).
-/

namespace BlockFeed.Spec

open BlockFeed.Native

section EthHeights

variable {β δ : Type}

/-- Fetches and the handler succeed, and the block fetched is the one asked for. -/
structure Succeeds (calls : EthCalls β δ) : Prop where
  blockByNumber : ∀ number, ∃ block, calls.blockByNumber number = some block ∧
    block.number = number
  stringifyBlock : ∀ block, (calls.stringifyBlock block).isSome
  handler : ∀ block, calls.handler block = true

/-- The heights that the handler took. -/
def passedHeights (s : EthBlockSource δ) : List Nat := s.passed.map fun b => b.height.toNat

/-- After these headers the heights from `startHeight` to `number` have been handed on, if there
    are any. -/
def ForwardedTo (calls : EthCalls β δ) (startHeight : UInt64) (numbers : List Nat)
    (number : Nat) : Prop :=
  ∃ t, EthBlockSource.Subscribe calls (.new (some startHeight))
      (numbers.map fun n => .header (some n)) t ∧
    t.returned = false ∧
    passedHeights t = List.range' startHeight.toNat (number + 1 - startHeight.toNat)

/-- The first header is below the greatest height, and the others go on at the start height or
    after the first header, one by one. -/
def GoesOn (startHeight : UInt64) : List Nat → Prop
  | [] => True
  | first :: rest =>
    first < 2 ^ 64 - 1 ∧
      rest = List.range' (max startHeight.toNat (first + 1)) rest.length ∧
      ∀ number ∈ rest, number < 2 ^ 64

instance (startHeight : UInt64) (numbers : List Nat) : Decidable (GoesOn startHeight numbers) := by
  unfold GoesOn
  split <;> infer_instance

namespace Succeeds

variable {calls : EthCalls β δ} {s : EthBlockSource δ} {number : Nat}

/-- A block is handed on under the height of its number. -/
theorem pass_eq (h : Succeeds calls) {height : EthBlock β → UInt64}
    (hheight : ∀ block : EthBlock β, block.number = number → height block = UInt64.ofNat number) :
    ∃ data, s.pass calls number height =
      { s with passed := s.passed ++ [⟨data, UInt64.ofNat number⟩] } := by
  obtain ⟨block, hblock, hnumber⟩ := h.blockByNumber number
  obtain ⟨data, hdata⟩ := Option.isSome_iff_exists.1 (h.stringifyBlock block)
  refine ⟨data, ?_⟩
  rw [EthBlockSource.pass]
  simp only [hblock, hdata, h.handler, if_true, hheight block hnumber]

/-- A round of the loop, up to the number of the header. -/
theorem catchUp_eq (h : Succeeds calls) {currHeight : UInt64} (hreturned : s.returned = false)
    (hcurr : s.currHeight = some currHeight) (hle : currHeight.toNat ≤ number) :
    ∃ data, s.catchUp calls number =
      some { s with currHeight := some (currHeight + 1),
                    passed := s.passed ++ [⟨data, currHeight⟩] } := by
  obtain ⟨data, hpass⟩ : ∃ data, s.pass calls currHeight.toNat
      (fun block => UInt64.ofNat block.number) = { s with
        passed := s.passed ++ [⟨data, UInt64.ofNat currHeight.toNat⟩] } :=
    h.pass_eq fun block hblock => by rw [hblock]
  refine ⟨data, ?_⟩
  rw [EthBlockSource.catchUp]
  simp only [hcurr, hle, hpass, hreturned, if_true, Bool.false_eq_true, if_false,
    UInt64.ofNat_toNat]

/-- The loop reaches a header below the greatest height. -/
theorem catchUp_ends (h : Succeeds calls) {currHeight : UInt64} (hreturned : s.returned = false)
    (hcurr : s.currHeight = some currHeight)
    (hmax : number < 2 ^ 64 - 1) :
    ∃ u, LoopEnds (EthBlockSource.catchUp calls number) s u ∧ u.returned = false ∧
      passedHeights u = passedHeights s ++
        List.range' currHeight.toNat (number + 1 - currHeight.toNat) := by
  induction hk : number + 1 - currHeight.toNat generalizing s currHeight with
  | zero =>
    refine ⟨s, .leave ?_, hreturned, (List.append_nil _).symm⟩
    have hlt : ¬ currHeight.toNat ≤ number := by omega
    simp only [EthBlockSource.catchUp, hreturned, hcurr, hlt, if_false, Bool.false_eq_true]
  | succ k ih =>
    have hle : currHeight.toNat ≤ number := by omega
    have hnext : (currHeight + 1).toNat = currHeight.toNat + 1 := by
      rw [UInt64.toNat_add]
      show (currHeight.toNat + 1) % 2 ^ 64 = _
      omega
    obtain ⟨data, hround⟩ := h.catchUp_eq hreturned hcurr hle
    obtain ⟨u, hends, hu, hpassed⟩ := ih
      (s := { s with currHeight := some (currHeight + 1),
                     passed := s.passed ++ [⟨data, currHeight⟩] })
      hreturned rfl (by omega)
    refine ⟨u, .next hround hends, hu, ?_⟩
    rw [hpassed, hnext, List.range'_succ, passedHeights, passedHeights, List.map_append,
      List.append_assoc]
    rfl

/-- It never gets past the greatest height. -/
theorem catchUp_endless (h : Succeeds calls) {currHeight : UInt64} (hreturned : s.returned = false)
    (hcurr : s.currHeight = some currHeight) (hmax : 2 ^ 64 - 1 ≤ number)
    {u : EthBlockSource δ} : ¬ LoopEnds (EthBlockSource.catchUp calls number) s u := by
  apply not_loopEnds (I := fun s => s.returned = false ∧ ∃ height, s.currHeight = some height) ?_
    ⟨hreturned, currHeight, hcurr⟩
  intro s hs
  obtain ⟨hreturned, height, hcurr⟩ := hs
  have hlt := height.toNat_lt
  obtain ⟨data, hround⟩ := h.catchUp_eq hreturned hcurr (show height.toNat ≤ number by omega)
  exact ⟨_, hround, hreturned, height + 1, rfl⟩

/-- The first header. -/
theorem receives_first (h : Succeeds calls) {startHeight : UInt64}
    (hmax : number < 2 ^ 64 - 1) :
    ∃ t, (EthBlockSource.new (some startHeight)).Receives calls (.header (some number)) t ∧
      t.returned = false ∧ t.isBehind = false ∧
      passedHeights t = List.range' startHeight.toNat (number + 1 - startHeight.toNat) := by
  obtain ⟨u, hends, hreturned, hpassed⟩ := h.catchUp_ends
    (s := EthBlockSource.new (some startHeight)) rfl rfl hmax
  refine ⟨{ u with isBehind := false }, ⟨u, hends, ?_⟩, hreturned, rfl, hpassed⟩
  simp only [hreturned, Bool.false_eq_true, if_false]

/-- The headers after it: each hands on its own number. -/
theorem subscribe_rest (h : Succeeds calls) (hreturned : s.returned = false)
    (hbehind : s.isBehind = false) (numbers : List Nat) :
    ∃ t, EthBlockSource.Subscribe calls s (numbers.map fun n => .header (some n)) t ∧
      t.returned = false ∧
      passedHeights t = passedHeights s ++ numbers.map fun n => n % 2 ^ 64 := by
  induction numbers generalizing s with
  | nil => exact ⟨s, rfl, hreturned, (List.append_nil _).symm⟩
  | cons number numbers ih =>
    obtain ⟨data, hpass⟩ : ∃ data, s.pass calls number (fun _ => UInt64.ofNat number) =
        { s with passed := s.passed ++ [⟨data, UInt64.ofNat number⟩] } :=
      h.pass_eq fun _ _ => rfl
    obtain ⟨t, hrest, ht, hpassed⟩ := ih
      (s := { s with passed := s.passed ++ [⟨data, UInt64.ofNat number⟩] }) hreturned hbehind
    refine ⟨t, ?_, ht, ?_⟩
    · simp only [List.map_cons, EthBlockSource.Subscribe, hreturned, Bool.false_eq_true, if_false]
      refine ⟨_, ?_, hrest⟩
      rw [EthBlockSource.Receives, if_neg (by rw [hbehind]; exact Bool.false_ne_true)]
      exact hpass.symm
    · rw [hpassed, passedHeights, passedHeights, List.map_append, List.append_assoc]
      rfl

/-- What has been handed on after some headers. -/
theorem subscribe_passed (h : Succeeds calls) {startHeight : UInt64} {first : Nat}
    (hmax : first < 2 ^ 64 - 1) (rest : List Nat) :
    ∃ t, EthBlockSource.Subscribe calls (.new (some startHeight))
        ((first :: rest).map fun n => .header (some n)) t ∧
      t.returned = false ∧
      passedHeights t = List.range' startHeight.toNat (first + 1 - startHeight.toNat) ++
        rest.map fun n => n % 2 ^ 64 := by
  obtain ⟨u, hfirst, hreturned, hbehind, hpassed⟩ := h.receives_first hmax
  obtain ⟨t, hrest, ht, hpassed'⟩ := h.subscribe_rest hreturned hbehind rest
  refine ⟨t, ?_, ht, hpassed ▸ hpassed'⟩
  simp only [List.map_cons, EthBlockSource.Subscribe]
  exact ⟨u, hfirst, hrest⟩

/-- The first header alone. -/
theorem first_lt_of_forwardedTo (h : Succeeds calls) {startHeight : UInt64} {first : Nat}
    (hforwarded : ForwardedTo calls startHeight [first] first) : first < 2 ^ 64 - 1 := by
  by_contra hmax
  obtain ⟨t, hsub, -, -⟩ := hforwarded
  obtain ⟨u, hfirst, -⟩ : ∃ u, (EthBlockSource.new (some startHeight)).Receives calls
      (.header (some first)) u ∧ t = u := hsub
  obtain ⟨v, hends, -⟩ := hfirst
  exact h.catchUp_endless rfl rfl (Nat.not_lt.1 hmax) hends

/-- The headers up to a later one. -/
theorem forwardedTo_iff (h : Succeeds calls) {startHeight : UInt64} {first : Nat}
    (hmax : first < 2 ^ 64 - 1) (rest : List Nat) (number : Nat) :
    ForwardedTo calls startHeight (first :: rest) number ↔
      List.range' startHeight.toNat (first + 1 - startHeight.toNat) ++
          (rest.map fun n => n % 2 ^ 64) =
        List.range' startHeight.toNat (number + 1 - startHeight.toNat) := by
  obtain ⟨t, hsub, hreturned, hpassed⟩ := h.subscribe_passed hmax rest
  constructor
  · intro hforwarded
    obtain ⟨t', hsub', -, hpassed'⟩ := hforwarded
    rw [← hpassed', EthBlockSource.subscribe_unique hsub' hsub, hpassed]
  · intro heq
    exact ⟨t, hsub, hreturned, hpassed.trans heq⟩

end Succeeds

/-- Where a list of the heights up to a number ends with that number, it has the place of that
    number. -/
private theorem number_eq_of_range' {start first number : Nat} {rest : List Nat}
    (h : List.range' start (first + 1 - start) ++ ((rest ++ [number]).map fun n => n % 2 ^ 64) =
      List.range' start (number + 1 - start)) :
    number = max start (first + 1) + rest.length ∧ number < 2 ^ 64 := by
  have hlen := congrArg List.length h
  simp only [List.length_append, List.length_map, List.length_range', List.length_singleton] at hlen
  have hlast := congrArg List.getLast? h
  rw [List.map_append, List.map_singleton, ← List.append_assoc, List.getLast?_concat,
    List.getLast?_range', if_neg (by omega)] at hlast
  have heq := Option.some.inj hlast
  omega

/-- The heights up to the first header and then the next ones, up to a number, are all heights up to
    that number. -/
private theorem range'_append_next {start first number k : Nat} {before : List Nat}
    (h : before ++ [number] = List.range' (max start (first + 1)) k) :
    List.range' start (first + 1 - start) ++ (before ++ [number]) =
      List.range' start (number + 1 - start) := by
  have hlast := congrArg List.getLast? h
  have hlen := congrArg List.length h
  rw [List.length_append, List.length_singleton, List.length_range'] at hlen
  rw [List.getLast?_concat, List.getLast?_range', if_neg (by omega)] at hlast
  have hnumber := Option.some.inj hlast
  have hmax : max start (first + 1) = start + (first + 1 - start) := by omega
  rw [h, hmax, List.range'_append_1]
  congr 1
  omega

section

variable {calls : EthCalls β δ} {startHeight : UInt64} {first : Nat} {rest : List Nat}

/-- Where each header leaves what it should, the later ones are the next heights. -/
private theorem goesOn_of_forwardedTo (hcalls : Succeeds calls)
    (hall : ∀ before number after, first :: rest = before ++ number :: after →
      ForwardedTo calls startHeight (before ++ [number]) number) :
    GoesOn startHeight (first :: rest) := by
  have hmax := hcalls.first_lt_of_forwardedTo (hall [] first rest rfl)
  have hget : ∀ (i : Nat) (hi : i < rest.length),
      rest[i] = max startHeight.toNat (first + 1) + i ∧ rest[i] < 2 ^ 64 := by
    intro i hi
    have hsplit : first :: rest = (first :: rest.take i) ++ rest[i] :: rest.drop (i + 1) := by
      rw [List.cons_append, ← List.drop_eq_getElem_cons, List.take_append_drop]
    have hforwarded := hall _ _ _ hsplit
    rw [List.cons_append, hcalls.forwardedTo_iff hmax] at hforwarded
    have hnext := number_eq_of_range' hforwarded
    rwa [List.length_take_of_le (Nat.le_of_lt hi)] at hnext
  refine ⟨hmax, ?_, ?_⟩
  · apply List.ext_getElem
    · rw [List.length_range']
    · intro i hi hi'
      rw [List.getElem_range', (hget i hi).1, Nat.one_mul]
  · intro number hnumber
    obtain ⟨i, hi, rfl⟩ := List.getElem_of_mem hnumber
    exact (hget i hi).2

private theorem forwardedTo_of_goesOn (hcalls : Succeeds calls)
    (hgoes : GoesOn startHeight (first :: rest)) {before : List Nat} {number : Nat}
    {after : List Nat} (h : first :: rest = before ++ number :: after) :
    ForwardedTo calls startHeight (before ++ [number]) number := by
  obtain ⟨hmax, hrest, hlt⟩ := hgoes
  cases before with
  | nil =>
    obtain ⟨rfl, -⟩ := List.cons.inj h
    exact (hcalls.forwardedTo_iff hmax [] first).2 (List.append_nil _)
  | cons b before =>
    obtain ⟨rfl, hsplit⟩ := List.cons.inj h
    rw [List.cons_append, hcalls.forwardedTo_iff hmax]
    -- the headers up to this one are the next ones too
    have hfirst : rest = (before ++ [number]) ++ after :=
      hsplit.trans (List.append_cons before number after)
    obtain ⟨k, -, hbefore, -⟩ := List.range'_eq_append_iff.1 (hrest.symm.trans hfirst)
    have hmod : ((before ++ [number]).map fun n => n % 2 ^ 64) = before ++ [number] := by
      rw [List.map_congr_left (g := id), List.map_id]
      intro n hn
      exact Nat.mod_eq_of_lt (hlt n (hfirst ▸ List.mem_append_left _ hn))
    rw [hmod]
    exact range'_append_next hbefore

end

/-- Each header leaves exactly the heights from the start height to its number handed on, exactly
    if the headers go on at the start height. -/
theorem eth_forwards_iff {calls : EthCalls β δ} (hcalls : Succeeds calls) (startHeight : UInt64)
    (numbers : List Nat) :
    (∀ before number after, numbers = before ++ number :: after →
        ForwardedTo calls startHeight (before ++ [number]) number) ↔
      GoesOn startHeight numbers := by
  cases numbers with
  | nil =>
    refine iff_of_true ?_ trivial
    intro before number after h
    exact absurd h.symm (List.append_ne_nil_of_right_ne_nil _ (List.cons_ne_nil _ _))
  | cons first rest =>
    constructor
    · exact goesOn_of_forwardedTo hcalls
    · intro hgoes before number after h
      exact forwardedTo_of_goesOn hcalls hgoes h

end EthHeights

/-- Every block is there, and every call succeeds. -/
def everyBlock : EthCalls Unit Unit where
  blockByNumber := fun number => some ⟨number, ()⟩
  stringifyBlock := fun _ => some ()
  handler := fun _ => true

private theorem succeeds_everyBlock : Succeeds everyBlock where
  blockByNumber := fun number => ⟨⟨number, ()⟩, rfl, rfl⟩
  stringifyBlock := fun _ => rfl
  handler := fun _ => rfl

/-- From height 5 headers 7 and 8 hand on 5 to 8. -/
theorem eth_forwards_everyBlock : ForwardedTo everyBlock 5 [7, 8] 8 :=
  (eth_forwards_iff succeeds_everyBlock 5 [7, 8]).2 (by decide) [7] 8 [] rfl

/-- From height 8, header 5 hands on nothing and then header 6 block 6. -/
theorem not_forwardedTo :
    (∃ t, EthBlockSource.Subscribe everyBlock (.new (some 8)) [.header (some 5), .header (some 6)]
        t ∧ passedHeights t = [6]) ∧
      ¬ ForwardedTo everyBlock 8 [5, 6] 6 := by
  obtain ⟨t, hsub, -, hpassed⟩ := @Succeeds.subscribe_passed Unit Unit everyBlock
    succeeds_everyBlock 8 5 (by decide) [6]
  have hsix : passedHeights t = [6] := hpassed
  refine ⟨⟨t, hsub, hsix⟩, fun hforwarded => ?_⟩
  obtain ⟨t', hsub', -, hpassed'⟩ := hforwarded
  rw [EthBlockSource.subscribe_unique hsub' hsub, hsix] at hpassed'
  exact absurd hpassed' (by decide)

end BlockFeed.Spec
