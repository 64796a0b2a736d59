/-!
# Runs of a partial step function

A system is a function `step : σ → α → Option σ`: `none` says that the action is not
enabled. `run` folds it over a list of actions, so a reachable state is one that `run`
returns. The rules below turn a fact about one step into a fact about every run.

- `Meets step Q s as`: every step taken by the run satisfies `Q` in the state before it.
- `Always step P s as`: every state the run passes through satisfies `P`.
- `run_invariant`, `run_invariant_of_meets`, `run_invariant_history`: a step lemma gives a
  run lemma.
- `always_of_invariant`: what an invariant says holds all along the run.
- `always_iff_meets`, `always_iff_meets_within`: an exact step condition gives an exact run
  condition.
- `exists_of_not_always`, `exists_of_not_meets`: the first part of a run that goes wrong.
- `recorded`, `meets_recorded`: the system together with what its steps emit.
- `answers_simulates`: a simulation between machines whose actions have results.
-/

namespace Transition

variable {σ α : Type _}

/-- Takes the actions in order, stopping at the first one that is not enabled. -/
def run (step : σ → α → Option σ) : σ → List α → Option σ
  | s, [] => some s
  | s, a :: as =>
    match step s a with
    | none => none
    | some s' => run step s' as

/-- Every step that the run takes satisfies `Q` in the state it starts from. -/
def Meets (step : σ → α → Option σ) (Q : σ → α → Prop) : σ → List α → Prop
  | _, [] => True
  | s, a :: as => ∀ s', step s a = some s' → Q s a ∧ Meets step Q s' as

/-- Every state that the run passes through, its ends included, satisfies `P`. -/
def Always (step : σ → α → Option σ) (P : σ → Prop) : σ → List α → Prop
  | s, [] => P s
  | s, a :: as => P s ∧ ∀ s', step s a = some s' → Always step P s' as

section Runs

variable {step : σ → α → Option σ}

@[simp] theorem run_nil (s : σ) : run step s [] = some s := rfl

/-- The first action of a successful run is enabled. -/
theorem run_cons {s t : σ} {a : α} {as : List α} :
    run step s (a :: as) = some t ↔ ∃ s', step s a = some s' ∧ run step s' as = some t := by
  simp only [run]
  cases step s a with
  | none => simp
  | some s' => simp

/-- A run can be cut at any point. -/
theorem run_append {s t : σ} {as bs : List α} :
    run step s (as ++ bs) = some t ↔ ∃ m, run step s as = some m ∧ run step m bs = some t := by
  induction as generalizing s with
  | nil => simp
  | cons a as ih =>
    simp only [List.cons_append, run_cons, ih]
    constructor
    · rintro ⟨s', hs', m, hm, ht⟩
      exact ⟨m, ⟨s', hs', hm⟩, ht⟩
    · rintro ⟨m, ⟨s', hs', hm⟩, ht⟩
      exact ⟨s', hs', m, hm, ht⟩

/-- The last action of a successful run is taken from the state the others reach. -/
theorem run_concat {s t : σ} {as : List α} {a : α} :
    run step s (as ++ [a]) = some t ↔ ∃ m, run step s as = some m ∧ step m a = some t := by
  simp only [run_append, run_cons, run_nil, Option.some.injEq, exists_eq_right]

/-! ### Invariants -/

/-- A property that every step keeps holds at the end of every run that starts in it. -/
theorem run_invariant {P : σ → Prop}
    (hstep : ∀ s a s', step s a = some s' → P s → P s') {s t : σ} {as : List α}
    (h : run step s as = some t) (hs : P s) : P t := by
  induction as generalizing s with
  | nil => simp only [run_nil, Option.some.injEq] at h; exact h ▸ hs
  | cons a as ih =>
    obtain ⟨s', hs', ht⟩ := run_cons.1 h
    exact ih ht (hstep s a s' hs' hs)

/-- A property that every step satisfying `Q` keeps holds at the end of every run whose
    steps all satisfy `Q`. -/
theorem run_invariant_of_meets {P : σ → Prop} {Q : σ → α → Prop}
    (hstep : ∀ s a s', step s a = some s' → Q s a → P s → P s') {s t : σ} {as : List α}
    (h : run step s as = some t) (hq : Meets step Q s as) (hs : P s) : P t := by
  induction as generalizing s with
  | nil => simp only [run_nil, Option.some.injEq] at h; exact h ▸ hs
  | cons a as ih =>
    obtain ⟨s', hs', ht⟩ := run_cons.1 h
    obtain ⟨hqa, hqs⟩ := hq s' hs'
    exact ih ht hqs (hstep s a s' hs' hqa hs)

/-- If no step raises a measure and every step that `p` counts lowers it, a run has no more of these
    than the measure falls. -/
theorem countP_add_le_of_meets {P : σ → Prop} {Q : σ → α → Prop} {measure : σ → Nat}
    {p : α → Bool} (hstep : ∀ s a s', step s a = some s' → Q s a → P s →
      P s' ∧ measure s' + (if p a then 1 else 0) ≤ measure s)
    {s t : σ} {as : List α} (h : run step s as = some t) (hq : Meets step Q s as) (hs : P s) :
    as.countP p + measure t ≤ measure s := by
  induction as generalizing s with
  | nil =>
    simp only [run_nil, Option.some.injEq] at h
    simp [h]
  | cons a as ih =>
    obtain ⟨s', hs', ht⟩ := run_cons.1 h
    obtain ⟨hqa, hqs⟩ := hq s' hs'
    obtain ⟨hP, hle⟩ := hstep s a s' hs' hqa hs
    have hrest := ih ht hqs hP
    rw [List.countP_cons]
    omega

/-- An invariant that also sees the actions taken so far. -/
theorem run_invariant_history {P : List α → σ → Prop} {s t : σ} {as : List α}
    (hstep : ∀ as s a s', step s a = some s' → P as s → P (as ++ [a]) s')
    (h : run step s as = some t) (hs : P [] s) : P as t := by
  -- the actions so far change along the run, so the induction is for any of them
  suffices hgen : ∀ (bs : List α) (s : σ), run step s as = some t → P bs s → P (bs ++ as) t from
    hgen [] s h hs
  clear h hs
  induction as with
  | nil =>
    intro bs s h hs
    simp only [run_nil, Option.some.injEq] at h
    rwa [List.append_nil, ← h]
  | cons a as ih =>
    intro bs s h hs
    obtain ⟨s', hs', ht⟩ := run_cons.1 h
    have hnext := ih (bs ++ [a]) s' ht (hstep bs s a s' hs' hs)
    rwa [List.append_assoc, List.singleton_append] at hnext

/-- The same where all steps of the run satisfy `Q`. -/
theorem run_invariant_history_of_meets {P : List α → σ → Prop} {Q : σ → α → Prop} {s t : σ}
    {as : List α}
    (hstep : ∀ as s a s', step s a = some s' → Q s a → P as s → P (as ++ [a]) s')
    (h : run step s as = some t) (hq : Meets step Q s as) (hs : P [] s) : P as t := by
  suffices hgen : ∀ (bs : List α) (s : σ), run step s as = some t → Meets step Q s as →
      P bs s → P (bs ++ as) t from hgen [] s h hq hs
  clear h hq hs
  induction as with
  | nil =>
    intro bs s h _ hs
    simp only [run_nil, Option.some.injEq] at h
    rwa [List.append_nil, ← h]
  | cons a as ih =>
    intro bs s h hq hs
    obtain ⟨s', hs', ht⟩ := run_cons.1 h
    obtain ⟨hqa, hqs⟩ := hq s' hs'
    have hnext := ih (bs ++ [a]) s' ht hqs (hstep bs s a s' hs' hqa hs)
    rwa [List.append_assoc, List.singleton_append] at hnext

/-! ### Conditions on the steps of a run -/

/-- A run can be checked step by step. -/
instance decidableMeets (Q : σ → α → Prop) [∀ s a, Decidable (Q s a)] :
    ∀ s as, Decidable (Meets step Q s as)
  | _, [] => .isTrue trivial
  | s, a :: as =>
    match h : step s a with
    | none => .isTrue (by simp [Meets, h])
    | some s' =>
      have := decidableMeets Q s' as
      decidable_of_iff (Q s a ∧ Meets step Q s' as) (by simp [Meets, h])

theorem meets_of_forall {Q : σ → α → Prop} (h : ∀ s a, Q s a) {s : σ} {as : List α} :
    Meets step Q s as := by
  induction as generalizing s with
  | nil => trivial
  | cons a as ih => exact fun s' _ => ⟨h s a, ih⟩

/-- A condition on the actions alone. -/
theorem meets_of_mem {Q : α → Prop} {s : σ} {as : List α} (h : ∀ a ∈ as, Q a) :
    Meets step (fun _ a => Q a) s as := by
  induction as generalizing s with
  | nil => trivial
  | cons a as ih =>
    intro s' _
    exact ⟨h a List.mem_cons_self, ih fun b hb => h b (List.mem_cons_of_mem _ hb)⟩

/-- What an invariant says about single steps holds of every step of a run. -/
theorem meets_of_invariant {P : σ → Prop} {Q R : σ → α → Prop}
    (hstep : ∀ s a s', step s a = some s' → Q s a → P s → P s')
    (hR : ∀ s a, Q s a → P s → R s a) {s : σ} {as : List α} (hq : Meets step Q s as) (hs : P s) :
    Meets step R s as := by
  induction as generalizing s with
  | nil => trivial
  | cons a as ih =>
    intro s' hs'
    obtain ⟨hqa, hqs⟩ := hq s' hs'
    exact ⟨hR s a hqa hs, ih hqs (hstep s a s' hs' hqa hs)⟩

theorem Always.head {P : σ → Prop} {s : σ} {as : List α} (h : Always step P s as) : P s := by
  cases as with
  | nil => exact h
  | cons a as => exact h.1

/-- A run that leaves `P` has a first part that ends outside it. -/
theorem exists_of_not_always {P : σ → Prop} {s : σ} {as : List α} (h : ¬ Always step P s as) :
    ∃ pre t, pre <+: as ∧ run step s pre = some t ∧ ¬ P t := by
  induction as generalizing s with
  | nil => exact ⟨[], s, List.nil_prefix, rfl, h⟩
  | cons a as ih =>
    by_cases hs : P s
    · simp only [Always, hs, true_and, Classical.not_forall] at h
      obtain ⟨s', hs', h'⟩ := h
      obtain ⟨pre, t, hpre, ht, hP⟩ := ih h'
      exact ⟨a :: pre, t, (List.prefix_cons_inj a).2 hpre, run_cons.2 ⟨s', hs', ht⟩, hP⟩
    · exact ⟨[], s, List.nil_prefix, rfl, hs⟩

/-- A run with a step that does not satisfy `Q` has a first part that ends before it. -/
theorem exists_of_not_meets {Q : σ → α → Prop} {s : σ} {as : List α} (h : ¬ Meets step Q s as) :
    ∃ pre t a, pre <+: as ∧ run step s pre = some t ∧ ¬ Q t a := by
  induction as generalizing s with
  | nil => exact absurd trivial h
  | cons a as ih =>
    simp only [Meets, Classical.not_forall] at h
    obtain ⟨s', hs', h⟩ := h
    by_cases hq : Q s a
    · obtain ⟨pre, t, b, hpre, ht, hb⟩ := ih fun hqs => h ⟨hq, hqs⟩
      exact ⟨a :: pre, t, b, (List.prefix_cons_inj a).2 hpre, run_cons.2 ⟨s', hs', ht⟩, hb⟩
    · exact ⟨[], s, a, List.nil_prefix, rfl, hq⟩

/-- What follows from an invariant of the steps satisfying `Q` holds all along a run whose steps
    satisfy `Q`. -/
theorem always_of_invariant {I P : σ → Prop} {Q : σ → α → Prop}
    (hstep : ∀ s a s', step s a = some s' → Q s a → I s → I s') (hP : ∀ s, I s → P s) {s : σ}
    {as : List α} (hq : Meets step Q s as) (hs : I s) : Always step P s as := by
  induction as generalizing s with
  | nil => exact hP s hs
  | cons a as ih =>
    refine ⟨hP s hs, fun s' hs' => ?_⟩
    obtain ⟨hqa, hqs⟩ := hq s' hs'
    exact ih hqs (hstep s a s' hs' hqa hs)

/-- Where `Q` says exactly when a step keeps `P`, a run stays in `P` if and only if all its
    steps satisfy `Q`. `I` is an invariant the step fact may rely on, and `R` a condition that
    all steps of the run are known to satisfy. -/
theorem always_iff_meets_within {I P : σ → Prop} {Q R : σ → α → Prop}
    (hI : ∀ s a s', step s a = some s' → R s a → I s → I s')
    (hstep : ∀ s a s', step s a = some s' → R s a → I s → P s → (P s' ↔ Q s a))
    {s : σ} {as : List α} (hr : Meets step R s as) (hi : I s) (hs : P s) :
    Always step P s as ↔ Meets step Q s as := by
  induction as generalizing s with
  | nil => simp [Always, Meets, hs]
  | cons a as ih =>
    simp only [Always, Meets, hs, true_and]
    refine forall_congr' fun s' => forall_congr' fun hs' => ?_
    obtain ⟨hra, hrs⟩ := hr s' hs'
    have hi' := hI s a s' hs' hra hi
    -- the rest of the run starts in a state that satisfies `P`, on either side
    constructor
    · intro h
      exact ⟨(hstep s a s' hs' hra hi hs).1 h.head, (ih hrs hi' h.head).1 h⟩
    · rintro ⟨hqa, hqs⟩
      exact (ih hrs hi' ((hstep s a s' hs' hra hi hs).2 hqa)).2 hqs

/-- The same where nothing is known about the steps. -/
theorem always_iff_meets {I P : σ → Prop} {Q : σ → α → Prop}
    (hI : ∀ s a s', step s a = some s' → I s → I s')
    (hstep : ∀ s a s', step s a = some s' → I s → P s → (P s' ↔ Q s a))
    {s : σ} {as : List α} (hi : I s) (hs : P s) :
    Always step P s as ↔ Meets step Q s as := by
  have hany : Meets step (fun _ _ => True) s as := meets_of_forall fun _ _ => trivial
  exact always_iff_meets_within (fun s a s' h _ => hI s a s' h)
    (fun s a s' h _ => hstep s a s' h) hany hi hs

/-! ### Recorded runs -/

/-- The system that also keeps, in order, what its steps emit. -/
def recorded {ω : Type _} (step : σ → α → Option σ) (emit : σ → α → List ω) :
    σ × List ω → α → Option (σ × List ω)
  | (s, log), a =>
    match step s a with
    | none => none
    | some s' => some (s', log ++ emit s a)

theorem recorded_eq_some {ω : Type _} {emit : σ → α → List ω} {s s' : σ} {log log' : List ω}
    {a : α} : recorded step emit (s, log) a = some (s', log') ↔
      step s a = some s' ∧ log' = log ++ emit s a := by
  cases hstep : step s a with
  | none => simp [recorded, hstep]
  | some t => simp [recorded, hstep, eq_comm]

/-- Recording changes no run: it is a run of the system itself, and each of those can be
    recorded. -/
theorem run_recorded {ω : Type _} {emit : σ → α → List ω} {s t : σ} {log : List ω}
    {as : List α} :
    (∃ log', run (recorded step emit) (s, log) as = some (t, log')) ↔
      run step s as = some t := by
  induction as generalizing s log with
  | nil => simp
  | cons a as ih =>
    simp only [run_cons, Prod.exists, recorded_eq_some]
    constructor
    · rintro ⟨log', s', log'', ⟨hs', -⟩, ht⟩
      exact ⟨s', hs', ih.1 ⟨log', ht⟩⟩
    · rintro ⟨s', hs', ht⟩
      have hrest : ∃ log', run (recorded step emit) (s', log ++ emit s a) as = some (t, log') :=
        ih.2 ht
      obtain ⟨log', hlog'⟩ := hrest
      exact ⟨log', s', _, ⟨hs', rfl⟩, hlog'⟩

/-- A condition on the steps of the system itself. -/
theorem meets_recorded {ω : Type _} {emit : σ → α → List ω} {Q : σ → α → Prop} {s : σ}
    {log : List ω} {as : List α} :
    Meets (recorded step emit) (fun p a => Q p.1 a) (s, log) as ↔ Meets step Q s as := by
  induction as generalizing s log with
  | nil => exact Iff.rfl
  | cons a as ih =>
    simp only [Meets, Prod.forall, recorded_eq_some]
    constructor
    · intro h s' hs'
      have hrest := h s' (log ++ emit s a) ⟨hs', rfl⟩
      exact ⟨hrest.1, ih.1 hrest.2⟩
    · intro h s' log' hs'
      have hrest := h s' hs'.1
      exact ⟨hrest.1, ih.2 hrest.2⟩

end Runs

/-! ### Machines with results -/

section Answers

variable {τ ω : Type _}

/-- Takes the actions in order, with the result of each. -/
def answers (step : σ → α → σ × ω) : σ → List α → σ × List ω
  | s, [] => (s, [])
  | s, a :: as =>
    let (s', r) := step s a
    let (t, rs) := answers step s' as
    (t, r :: rs)

/-- A simulation with equal results. -/
theorem answers_simulates {step : σ → α → σ × ω} {step' : τ → α → τ × ω} {R : σ → τ → Prop}
    (hstep : ∀ s t a, R s t → R (step s a).1 (step' t a).1 ∧ (step s a).2 = (step' t a).2)
    {s : σ} {t : τ} (h : R s t) (as : List α) :
    R (answers step s as).1 (answers step' t as).1 ∧
      (answers step s as).2 = (answers step' t as).2 := by
  induction as generalizing s t with
  | nil => exact ⟨h, rfl⟩
  | cons a as ih =>
    obtain ⟨hnext, hresult⟩ := hstep s t a h
    obtain ⟨hend, hresults⟩ := ih hnext
    refine ⟨hend, ?_⟩
    show (step s a).2 :: _ = (step' t a).2 :: _
    rw [hresult, hresults]

end Answers

end Transition
