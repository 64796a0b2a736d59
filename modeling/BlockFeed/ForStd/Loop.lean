/-!
# Loops that end by themselves

The loop `while true do ... end` of a script has no bound: its body either leaves the loop,
`none`, or goes on with a new state. `LoopEnds body s t` says that the loop entered in `s` is
left in `t`; a loop that never ends is related to nothing.

- `loopEnds_unique`: a loop is left in one state at most.
- `not_loopEnds`: a loop whose body goes on as long as some invariant holds, and keeps it, is
  never left.
- `exists_loopEnds`: a loop that keeps an invariant and makes some measure smaller is left, and
  the invariant holds there.
- `loopEnds_rounds`: a loop whose body makes some measure smaller is left after as many rounds
  as the measure says, so a loop with a bound that large computes the same.
-/

variable {σ : Type _}

/-- The loop entered in one state is left in the other. -/
inductive LoopEnds (body : σ → Option σ) : σ → σ → Prop where
  | leave {s : σ} (h : body s = none) : LoopEnds body s s
  | next {s s' t : σ} (h : body s = some s') (hrest : LoopEnds body s' t) : LoopEnds body s t

/-- The same loop with a bound on its rounds. -/
def rounds (body : σ → Option σ) : Nat → σ → σ
  | 0, s => s
  | fuel + 1, s =>
    match body s with
    | none => s
    | some s' => rounds body fuel s'

variable {body : σ → Option σ}

/-- The state after the loop is determined by the one before it. -/
theorem loopEnds_unique {s t t' : σ} (h : LoopEnds body s t) (h' : LoopEnds body s t') :
    t = t' := by
  induction h with
  | leave hnone =>
    cases h' with
    | leave => rfl
    | next hsome => rw [hnone] at hsome; cases hsome
  | next hsome _ ih =>
    cases h' with
    | leave hnone => rw [hnone] at hsome; cases hsome
    | next hsome' hrest' =>
      rw [hsome] at hsome'
      cases hsome'
      exact ih hrest'

/-- A loop that keeps an invariant under which its body goes on is never left. -/
theorem not_loopEnds {I : σ → Prop} (hstep : ∀ s, I s → ∃ s', body s = some s' ∧ I s') {s t : σ}
    (hs : I s) : ¬ LoopEnds body s t := by
  intro hends
  induction hends with
  | leave hnone =>
    obtain ⟨s', hsome, -⟩ := hstep _ hs
    rw [hnone] at hsome
    cases hsome
  | next hsome _ ih =>
    obtain ⟨s', hsome', hs'⟩ := hstep _ hs
    rw [hsome] at hsome'
    cases hsome'
    exact ih hs'

/-- A loop that keeps an invariant under which its body decreases a measure is left. -/
theorem exists_loopEnds {I : σ → Prop} (measure : σ → Nat)
    (hstep : ∀ s s', I s → body s = some s' → I s' ∧ measure s' < measure s) {s : σ}
    (hs : I s) : ∃ t, LoopEnds body s t ∧ I t ∧ body t = none := by
  induction hm : measure s using Nat.strongRecOn generalizing s with
  | ind m ih =>
    cases hbody : body s with
    | none => exact ⟨s, .leave hbody, hs, hbody⟩
    | some s' =>
      obtain ⟨hs', hless⟩ := hstep s s' hs hbody
      obtain ⟨t, hends, ht, hnone⟩ := ih (measure s') (hm ▸ hless) hs' rfl
      exact ⟨t, .next hbody hends, ht, hnone⟩

/-- A loop whose body decreases a measure is left within that many rounds. -/
theorem loopEnds_rounds (measure : σ → Nat)
    (hless : ∀ s s', body s = some s' → measure s' < measure s) {fuel : Nat} {s : σ}
    (h : measure s ≤ fuel) : LoopEnds body s (rounds body fuel s) := by
  induction fuel generalizing s with
  | zero =>
    -- nothing is left to decrease
    have hnone : body s = none := by
      cases hbody : body s with
      | none => rfl
      | some s' =>
        have hlt := hless s s' hbody
        omega
    exact .leave hnone
  | succ fuel ih =>
    simp only [rounds]
    cases hbody : body s with
    | none => exact .leave hbody
    | some s' =>
      have hlt := hless s s' hbody
      exact .next hbody (ih (by omega))
