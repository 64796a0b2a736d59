import BlockFeed.ForStd.Transition
import Mathlib.Logic.Function.Basic
import Mathlib.Tactic.Common

/-!
# Routines on a shared state

A `Routine` works on a shared state, one atomic operation after the other. In a `Pool` many
routines run at the same time: between two operations of one there may be any number of operations
of others. A routine that has not begun is one that has not taken its first operation.

- `Keeps`: what a routine relies on, what it does to the state and what it returns. `Pool.kept`
  puts the routines of a pool together.
- `Along`: all operations of a routine are of one kind, and its path depends only on what it may
  see. By `Pool.isolated` the routines of one owner run as if there were no others.
-/

/-- A program that works on a shared state. After an operation it goes on with what it found in
    the state before. -/
inductive Routine (σ α : Type) where
  | done (a : α)
  | next (update : σ → σ) (rest : σ → Routine σ α)

namespace Routine

variable {σ α β : Type}

/-- One routine after the other. -/
protected def bind : Routine σ α → (α → Routine σ β) → Routine σ β
  | done a, f => f a
  | next update rest, f => next update fun s => (rest s).bind f

instance : Monad (Routine σ) where
  pure := done
  bind := Routine.bind

/-- One operation: what it returns and what it does. -/
def op (f : σ → α) (update : σ → σ) : Routine σ α := next update fun s => done (f s)

/-- An operation that only reads. -/
def read (f : σ → α) : Routine σ α := op f id

@[simp] theorem pure_eq (a : α) : (pure a : Routine σ α) = done a := rfl

@[simp] theorem bind_eq (t : Routine σ α) (f : α → Routine σ β) : t >>= f = t.bind f := rfl

@[simp] theorem done_bind (a : α) (f : α → Routine σ β) : (done a).bind f = f a := rfl

@[simp] theorem op_bind (f : σ → α) (update : σ → σ) (g : α → Routine σ β) :
    (op f update).bind g = next update fun s => g (f s) := rfl

/-! ### What a routine keeps -/

/-- From `s` on, where the others change the state as `rely` says and keep `inv`: the routine keeps
    `inv` too, its own operations are as `guar` says, and it returns as `Q` says. -/
inductive Keeps (inv : σ → Prop) (rely guar : σ → σ → Prop) (Q : α → σ → Prop) :
    σ → Routine σ α → Prop where
  | done {s : σ} {a : α} (h : Q a s) : Keeps inv rely guar Q s (.done a)
  | next {s : σ} {update : σ → σ} {rest : σ → Routine σ α}
    (hinv : ∀ s', rely s s' → inv s' → inv (update s'))
    (hguar : ∀ s', rely s s' → inv s' → guar s' (update s'))
    (h : ∀ s', rely s s' → inv s' → Keeps inv rely guar Q (update s') (rest s')) :
    Keeps inv rely guar Q s (.next update rest)

section Keeps

variable {inv : σ → Prop} {rely guar : σ → σ → Prop}

/-- The second routine starts where the first one ends. -/
theorem Keeps.bind {Q : α → σ → Prop} {R : β → σ → Prop} {s : σ} {t : Routine σ α}
    {f : α → Routine σ β} (ht : Keeps inv rely guar Q s t)
    (hf : ∀ a s', Q a s' → Keeps inv rely guar R s' (f a)) :
    Keeps inv rely guar R s (t.bind f) := by
  induction ht with
  | done h => exact hf _ _ h
  | next hinv hguar _ ih => exact .next hinv hguar ih

/-- What a routine keeps from a state on, it keeps from any later state on. -/
theorem Keeps.later (htrans : ∀ a b c, rely a b → rely b c → rely a c) {Q : α → σ → Prop}
    (hQ : ∀ a s s', rely s s' → Q a s → Q a s') {s s' : σ} {t : Routine σ α}
    (h : Keeps inv rely guar Q s t) (hs : rely s s') : Keeps inv rely guar Q s' t := by
  cases h with
  | done h => exact .done (hQ _ _ _ hs h)
  | next hinv hguar h =>
    exact .next (fun t ht => hinv t (htrans _ _ _ hs ht)) (fun t ht => hguar t (htrans _ _ _ hs ht))
      (fun t ht => h t (htrans _ _ _ hs ht))

/-- What a routine has returned. -/
theorem Keeps.result {Q : α → σ → Prop} {s : σ} {a : α}
    (h : Keeps inv rely guar Q s (.done a)) : Q a s := by
  cases h with
  | done h => exact h

/-- Less can be said of what is returned. -/
theorem Keeps.imp {Q R : α → σ → Prop} (hQ : ∀ a s, Q a s → R a s) {s : σ} {t : Routine σ α}
    (h : Keeps inv rely guar Q s t) : Keeps inv rely guar R s t := by
  induction h with
  | done h => exact .done (hQ _ _ h)
  | next hinv hguar _ ih => exact .next hinv hguar ih

/-- A single operation. -/
theorem Keeps.op {Q : α → σ → Prop} {s : σ} {f : σ → α} {update : σ → σ}
    (h : ∀ s', rely s s' → inv s' → inv (update s') ∧ guar s' (update s') ∧ Q (f s') (update s')) :
    Keeps inv rely guar Q s (Routine.op f update) :=
  .next (fun s' hs' hinv => (h s' hs' hinv).1) (fun s' hs' hinv => (h s' hs' hinv).2.1)
    fun s' hs' hinv => .done (h s' hs' hinv).2.2

theorem Keeps.read (hguar : ∀ s, guar s s) {Q : α → σ → Prop} {s : σ} {f : σ → α}
    (h : ∀ s', rely s s' → inv s' → Q (f s') s') : Keeps inv rely guar Q s (Routine.read f) :=
  .op fun s' hs' hinv => ⟨hinv, hguar s', h s' hs' hinv⟩

end Keeps

/-! ### What a routine depends on -/

/-- Every operation of the routine satisfies `U`, and where two states satisfy `inv` and are the
    `same` it goes on in the same way. -/
inductive Along (inv : σ → Prop) (same : σ → σ → Prop) (U : (σ → σ) → Prop) :
    Routine σ α → Prop where
  | done (a : α) : Along inv same U (.done a)
  | next {update : σ → σ} {rest : σ → Routine σ α} (hupdate : U update)
    (hrest : ∀ s t, inv s → inv t → same s t → rest s = rest t)
    (h : ∀ s, inv s → Along inv same U (rest s)) : Along inv same U (.next update rest)

section Along

variable {inv : σ → Prop} {same : σ → σ → Prop} {U : (σ → σ) → Prop}

theorem Along.bind {t : Routine σ α} {f : α → Routine σ β} (ht : Along inv same U t)
    (hf : ∀ a, Along inv same U (f a)) : Along inv same U (t.bind f) := by
  induction ht with
  | done a => exact hf a
  | next hupdate hrest _ ih =>
    refine .next hupdate (fun s t hs ht hst => ?_) ih
    rw [hrest s t hs ht hst]

theorem Along.op {f : σ → α} {update : σ → σ} (hupdate : U update)
    (hf : ∀ s t, inv s → inv t → same s t → f s = f t) : Along inv same U (Routine.op f update) :=
  .next hupdate (fun s t hs ht hst => congrArg Routine.done (hf s t hs ht hst)) fun _ _ => .done _

theorem Along.read {f : σ → α} (hid : U id)
    (hf : ∀ s t, inv s → inv t → same s t → f s = f t) : Along inv same U (Routine.read f) :=
  .op hid hf

/-- Operations that each keep the invariant and something that the others keep too. -/
theorem Along.keeps {inv P : σ → Prop} {rely guar : σ → σ → Prop}
    (hP : ∀ s s', rely s s' → P s → P s') {t : Routine σ α}
    (ht : Along (fun s => inv s ∧ P s) Eq
      (fun update => ∀ s, inv s → P s → inv (update s) ∧ P (update s) ∧ guar s (update s)) t)
    {s : σ} (hs : P s) : Keeps inv rely guar (fun _ s => P s) s t := by
  induction ht generalizing s with
  | done a => exact .done hs
  | next hupdate _ _ ih =>
    refine .next (fun s' hs' hinv => ?_) (fun s' hs' hinv => ?_) fun s' hs' hinv => ?_
    · exact (hupdate s' hinv (hP s s' hs' hs)).1
    · exact (hupdate s' hinv (hP s s' hs' hs)).2.2
    · exact ih s' ⟨hinv, hP s s' hs' hs⟩ (hupdate s' hinv (hP s s' hs' hs)).2.1

end Along

/-! ### Routines that may throw -/

section Except

variable {ε : Type} {inv : σ → Prop}

/-- The value of a routine that does not throw. -/
@[simp] theorem run_lift (t : Routine σ α) :
    (ExceptT.lift t : ExceptT ε (Routine σ) α).run = t.bind fun a => done (.ok a) := rfl

@[simp] theorem run_pure (a : α) : (pure a : ExceptT ε (Routine σ) α).run = done (.ok a) := rfl

@[simp] theorem run_throw (e : ε) : (throw e : ExceptT ε (Routine σ) α).run = done (.error e) := rfl

theorem Along.bindExcept {same : σ → σ → Prop} {U : (σ → σ) → Prop}
    {x : ExceptT ε (Routine σ) α} {f : α → ExceptT ε (Routine σ) β} (hx : Along inv same U x.run)
    (hf : ∀ a, Along inv same U (f a).run) : Along inv same U (x >>= f).run := by
  refine Along.bind (t := x.run) hx fun a => ?_
  cases a with
  | error e => exact .done _
  | ok a => exact hf a

theorem Along.lift {same : σ → σ → Prop} {U : (σ → σ) → Prop} {t : Routine σ α}
    (h : Along inv same U t) :
    Along inv same U (ExceptT.lift t : ExceptT ε (Routine σ) α).run :=
  h.bind fun _ => .done _

theorem Along.mapExcept {same : σ → σ → Prop} {U : (σ → σ) → Prop} {x : ExceptT ε (Routine σ) α}
    (f : α → β) (hx : Along inv same U x.run) : Along inv same U (f <$> x).run := by
  refine Along.bind (t := x.run) hx fun a => ?_
  cases a with
  | error e => exact .done _
  | ok a => exact .done _

theorem Keeps.bindExcept {rely guar : σ → σ → Prop} {Q : Except ε α → σ → Prop}
    {R : Except ε β → σ → Prop} {s : σ} {x : ExceptT ε (Routine σ) α}
    {f : α → ExceptT ε (Routine σ) β} (hx : Keeps inv rely guar Q s x.run)
    (herror : ∀ e s', Q (.error e) s' → R (.error e) s')
    (hok : ∀ a s', Q (.ok a) s' → Keeps inv rely guar R s' (f a).run) :
    Keeps inv rely guar R s (x >>= f).run := by
  refine Keeps.bind (t := x.run) hx fun a s' h => ?_
  cases a with
  | error e => exact .done (herror e s' h)
  | ok a => exact hok a s' h

theorem Keeps.mapExcept {rely guar : σ → σ → Prop} {Q : Except ε α → σ → Prop}
    {R : Except ε β → σ → Prop} {s : σ} {x : ExceptT ε (Routine σ) α} {f : α → β}
    (hx : Keeps inv rely guar Q s x.run) (herror : ∀ e s', Q (.error e) s' → R (.error e) s')
    (hok : ∀ a s', Q (.ok a) s' → R (.ok (f a)) s') : Keeps inv rely guar R s (f <$> x).run := by
  refine Keeps.bind (t := x.run) hx fun a s' h => ?_
  cases a with
  | error e => exact .done (herror e s' h)
  | ok a => exact .done (hok a s' h)

theorem Keeps.lift {rely guar : σ → σ → Prop} {Q : Except ε α → σ → Prop} {s : σ}
    {t : Routine σ α} (h : Keeps inv rely guar (fun a => Q (.ok a)) s t) :
    Keeps inv rely guar Q s (ExceptT.lift t : ExceptT ε (Routine σ) α).run :=
  h.bind fun _ _ ha => .done ha

end Except

end Routine

/-! ## Pools -/

/-- Routines with a name each, on one state. -/
structure Pool (κ σ α : Type) where
  shared : σ
  tasks : κ → Routine σ α

/-- What happens in a pool. -/
inductive PoolAction (κ ε : Type) where
  /-- the next operation of a routine -/
  | step (k : κ)
  /-- something else changes the state -/
  | outside (e : ε)
deriving DecidableEq

namespace Pool

variable {κ σ α ε : Type} [DecidableEq κ]

/-- Takes one action, `none` when it is not enabled. -/
def step (event : ε → σ → σ) (p : Pool κ σ α) : PoolAction κ ε → Option (Pool κ σ α)
  | .step k =>
    match p.tasks k with
    | .done _ => none
    | .next update rest =>
      some ⟨update p.shared, Function.update p.tasks k (rest p.shared)⟩
  | .outside e => some { p with shared := event e p.shared }

/-- What an action does. -/
theorem step_cases {event : ε → σ → σ} {p p' : Pool κ σ α} {a : PoolAction κ ε}
    (h : step event p a = some p') :
    (∃ k update rest, a = .step k ∧ p.tasks k = .next update rest ∧
      p' = ⟨update p.shared, Function.update p.tasks k (rest p.shared)⟩) ∨
    ∃ e, a = .outside e ∧ p' = { p with shared := event e p.shared } := by
  cases a with
  | step k =>
    simp only [step] at h
    split at h
    · cases h
    · next update rest htask => exact .inl ⟨k, update, rest, rfl, htask, by simpa using h.symm⟩
  | outside e => exact .inr ⟨e, rfl, by simpa [step] using h.symm⟩

section Kept

variable {event : ε → σ → σ} {inv : σ → Prop} {rely guar : κ → σ → σ → Prop}
  {Q : κ → α → σ → Prop}

/-- Where each routine does what the others rely on, each keeps what it would keep alone. -/
theorem kept (hrefl : ∀ k s, rely k s s)
    (htrans : ∀ k a b c, rely k a b → rely k b c → rely k a c)
    (hguar : ∀ k k' s s', k' ≠ k → guar k s s' → rely k' s s')
    (hQ : ∀ k a s s', rely k s s' → Q k a s → Q k a s')
    (hevent : ∀ e s, inv s → inv (event e s) ∧ ∀ k, rely k s (event e s))
    {p₀ p : Pool κ σ α} (hinit : inv p₀.shared)
    (htasks : ∀ k, (p₀.tasks k).Keeps inv (rely k) (guar k) (Q k) p₀.shared)
    {as : List (PoolAction κ ε)} (hrun : Transition.run (step event) p₀ as = some p) :
    inv p.shared ∧ ∀ k, (p.tasks k).Keeps inv (rely k) (guar k) (Q k) p.shared := by
  refine Transition.run_invariant
    (P := fun p : Pool κ σ α =>
      inv p.shared ∧ ∀ k, (p.tasks k).Keeps inv (rely k) (guar k) (Q k) p.shared)
    ?_ hrun ⟨hinit, htasks⟩
  rintro p a p' hstep ⟨hinv, hkeeps⟩
  obtain ⟨k, update, rest, rfl, htask, rfl⟩ | ⟨e, rfl, rfl⟩ := step_cases hstep
  · have hk := hkeeps k
    rw [htask] at hk
    cases hk with
    | next hinv' hguar' hrest =>
      refine ⟨hinv' _ (hrefl k _) hinv, fun k' => ?_⟩
      by_cases hne : k' = k
      · subst hne
        simp only [Function.update_self]
        exact hrest _ (hrefl _ _) hinv
      · simp only [Function.update_of_ne hne]
        exact (hkeeps k').later (htrans k') (hQ k')
          (hguar k k' _ _ hne (hguar' _ (hrefl k _) hinv))
  · obtain ⟨hinv', hrely⟩ := hevent e _ hinv
    exact ⟨hinv', fun k => (hkeeps k).later (htrans k) (hQ k) (hrely k)⟩

end Kept

/-- Routines whose operations all satisfy `U` keep to that while they run. -/
theorem along {event : ε → σ → σ} {inv : σ → Prop} {same : κ → σ → σ → Prop}
    {U : κ → (σ → σ) → Prop} (hU : ∀ k update, U k update → ∀ s, inv s → inv (update s))
    (hevent : ∀ e s, inv s → inv (event e s)) {p₀ p : Pool κ σ α} (hinit : inv p₀.shared)
    (htasks : ∀ k, (p₀.tasks k).Along inv (same k) (U k)) {as : List (PoolAction κ ε)}
    (hrun : Transition.run (step event) p₀ as = some p) :
    inv p.shared ∧ ∀ k, (p.tasks k).Along inv (same k) (U k) := by
  refine Transition.run_invariant
    (P := fun p : Pool κ σ α => inv p.shared ∧ ∀ k, (p.tasks k).Along inv (same k) (U k))
    ?_ hrun ⟨hinit, htasks⟩
  rintro p a p' hstep ⟨hinv, halong⟩
  obtain ⟨k, update, rest, rfl, htask, rfl⟩ | ⟨e, rfl, rfl⟩ := step_cases hstep
  · have hk := halong k
    rw [htask] at hk
    cases hk with
    | next hupdate _ hrest =>
      refine ⟨hU k update hupdate _ hinv, fun k' => ?_⟩
      by_cases hne : k' = k
      · subst hne
        simp only [Function.update_self]
        exact hrest _ hinv
      · simp only [Function.update_of_ne hne]
        exact halong k'
  · exact ⟨hevent e _ hinv, halong⟩

section Isolated

variable {event : ε → σ → σ} {inv : σ → Prop} {same : σ → σ → Prop} {mine : κ → Bool}
  {mineEvent : ε → Bool}

/-- An action of one owner. -/
def ofOwner (mine : κ → Bool) (mineEvent : ε → Bool) : PoolAction κ ε → Bool
  | .step k => mine k
  | .outside e => mineEvent e

/-- An operation of the owner: it does the same wherever the owner sees the same. -/
structure Own (inv : σ → Prop) (same : σ → σ → Prop) (update : σ → σ) : Prop where
  keeps : ∀ s, inv s → inv (update s)
  alike : ∀ s t, inv s → inv t → same s t → same (update s) (update t)

/-- An operation that the owner does not see. -/
structure Unseen (inv : σ → Prop) (same : σ → σ → Prop) (update : σ → σ) : Prop where
  keeps : ∀ s, inv s → inv (update s)
  alike : ∀ s t, inv s → inv t → same s t → same (update s) t

/-- The owner sees the same in two pools. -/
structure Alike (inv : σ → Prop) (same : σ → σ → Prop) (mine : κ → Bool) (p q : Pool κ σ α) :
    Prop where
  left : inv p.shared
  right : inv q.shared
  shared : same p.shared q.shared
  tasks : ∀ k, mine k = true → q.tasks k = p.tasks k
  own : ∀ k, mine k = true → (p.tasks k).Along inv same (Own inv same)
  others : ∀ k, mine k = false → (p.tasks k).Along inv Eq (Unseen inv same)

/-- A property of each routine, after one of them went on. -/
private theorem update_tasks {P : κ → Routine σ α → Prop} {tasks : κ → Routine σ α} {k : κ}
    {t : Routine σ α} (h : ∀ k', P k' (tasks k')) (ht : P k t) (k' : κ) :
    P k' (Function.update tasks k t k') := by
  by_cases hk : k' = k
  · subst hk
    rwa [Function.update_self]
  · rw [Function.update_of_ne hk]
    exact h k'

/-- An action of the owner can be taken in both pools. -/
private theorem Alike.ownStep {p q p' : Pool κ σ α} (h : Alike inv same mine p q)
    (hevent : ∀ e, mineEvent e = true → Own inv same (event e)) {a : PoolAction κ ε}
    (ha : ofOwner mine mineEvent a = true) (hstep : step event p a = some p') :
    ∃ q', step event q a = some q' ∧ Alike inv same mine p' q' := by
  obtain ⟨k, update, rest, rfl, htask, rfl⟩ | ⟨e, rfl, rfl⟩ := step_cases hstep
  · have hk : mine k = true := ha
    have halong := h.own k hk
    rw [htask] at halong
    cases halong with
    | next hupdate hrest halong =>
      have hsame : rest q.shared = rest p.shared := (hrest _ _ h.left h.right h.shared).symm
      refine ⟨⟨update q.shared, Function.update q.tasks k (rest p.shared)⟩, ?_, ?_⟩
      · simp only [step, h.tasks k hk, htask, hsame]
      · refine ⟨hupdate.keeps _ h.left, hupdate.keeps _ h.right, hupdate.alike _ _ h.left h.right
          h.shared, fun k' hk' => ?_, ?_, ?_⟩
        · by_cases hne : k' = k
          · subst hne
            simp only [Function.update_self]
          · simp only [Function.update_of_ne hne]
            exact h.tasks k' hk'
        · exact update_tasks (P := fun k t => mine k = true → t.Along inv same (Own inv same))
            h.own fun _ => halong _ h.left
        · exact update_tasks (P := fun k t => mine k = false → t.Along inv Eq (Unseen inv same))
            h.others fun hfalse => absurd hk (by simp [hfalse])
  · have he := hevent e ha
    exact ⟨_, rfl, he.keeps _ h.left, he.keeps _ h.right, he.alike _ _ h.left h.right h.shared,
      h.tasks, h.own, h.others⟩

/-- An action of another changes nothing that the owner sees. -/
private theorem Alike.otherStep {p q p' : Pool κ σ α} (h : Alike inv same mine p q)
    (hevent : ∀ e, mineEvent e = false → Unseen inv same (event e)) {a : PoolAction κ ε}
    (ha : ofOwner mine mineEvent a = false) (hstep : step event p a = some p') :
    Alike inv same mine p' q := by
  obtain ⟨k, update, rest, rfl, htask, rfl⟩ | ⟨e, rfl, rfl⟩ := step_cases hstep
  · have hk : mine k = false := ha
    have halong := h.others k hk
    rw [htask] at halong
    cases halong with
    | next hupdate _ halong =>
      refine ⟨hupdate.keeps _ h.left, h.right, hupdate.alike _ _ h.left h.right h.shared,
        fun k' hk' => ?_, ?_, ?_⟩
      · have hne : k' ≠ k := by
          rintro rfl
          simp [hk] at hk'
        simp only [Function.update_of_ne hne]
        exact h.tasks k' hk'
      · exact update_tasks (P := fun k t => mine k = true → t.Along inv same (Own inv same))
          h.own fun htrue => absurd htrue (by simp [hk])
      · exact update_tasks (P := fun k t => mine k = false → t.Along inv Eq (Unseen inv same))
          h.others fun _ => halong _ h.left
  · have he := hevent e ha
    exact ⟨he.keeps _ h.left, h.right, he.alike _ _ h.left h.right h.shared, h.tasks, h.own,
      h.others⟩

/-- The routines of an owner run as if there were no others: there is a run without the actions of
    others, and in it the owner sees the same and has the same results. -/
theorem isolated (hown : ∀ e, mineEvent e = true → Own inv same (event e))
    (hothers : ∀ e, mineEvent e = false → Unseen inv same (event e)) {p₀ q₀ p : Pool κ σ α}
    (h : Alike inv same mine p₀ q₀) {as : List (PoolAction κ ε)}
    (hrun : Transition.run (step event) p₀ as = some p) :
    ∃ q, Transition.run (step event) q₀ (as.filter (ofOwner mine mineEvent)) = some q ∧
      Alike inv same mine p q := by
  induction as generalizing p₀ q₀ with
  | nil =>
    cases hrun
    exact ⟨q₀, rfl, h⟩
  | cons a as ih =>
    obtain ⟨p₁, hstep, hrest⟩ := Transition.run_cons.1 hrun
    cases ha : ofOwner mine mineEvent a with
    | true =>
      obtain ⟨q₁, hq₁, halike⟩ := h.ownStep hown ha hstep
      obtain ⟨q, hq, hend⟩ := ih halike hrest
      rw [List.filter_cons_of_pos ha]
      exact ⟨q, Transition.run_cons.2 ⟨q₁, hq₁, hq⟩, hend⟩
    | false =>
      rw [List.filter_cons_of_neg (by simp [ha])]
      exact ih (h.otherStep hothers ha hstep) hrest

end Isolated

end Pool
