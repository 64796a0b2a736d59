import BlockFeed.ForStd.Transition
import BlockFeed.Native.CheckoutTransaction

/-!
# Concurrent checkout calls

Calls for one user that have all resolved to the same row each try to replace it, or to insert one
if there was none. `TxInv` is what every order of their steps keeps: one transaction at a time
holds the row, and at most one call records its session.

A call that found no row to lock goes on to the select at once. When the transaction that holds the
row has not committed yet, or never does, it reads and returns the row all calls started from.
`checkout_agreement` says that nothing else goes wrong: the calls agree in every run in which such
a call reads only after another's session is committed.
-/

namespace BlockFeed.Spec

open BlockFeed.Native Transition

/-- Calls for one user that resolved to the same row, or to none. Their UUIDs and URLs are new. -/
structure ConcurrentCalls (κ ι : Type) where
  prior : Option (CheckoutSession κ)
  userId : String
  call : ι → CheckoutCall κ
  user : ∀ i, (call i).userId = userId
  prior_user : ∀ row, prior = some row → row.customerId = userId
  resolved : ∀ i, (call i).result.clientReferenceId = prior.map CheckoutSession.clientReferenceId
  subscribed : prior = none → ∀ i, (call i).result.stripeCustomerId = none
  fresh : ∀ row, prior = some row → ∀ i,
    (call i).clientReferenceId ≠ row.clientReferenceId ∧ (call i).url ≠ row.url

namespace ConcurrentCalls

variable {κ ι : Type}

/-- Every call is about to begin its transaction. -/
def init (c : ConcurrentCalls κ ι) : CheckoutState κ ι := ⟨c.prior, none, fun _ => .started⟩

/-- The row that a call writes. -/
def record (c : ConcurrentCalls κ ι) (i : ι) : CheckoutSession κ :=
  match c.prior with
  | none => (c.call i).values
  | some row => (c.call i).set row

theorem record_url (c : ConcurrentCalls κ ι) (i : ι) : (c.record i).url = (c.call i).url := by
  unfold record
  cases c.prior <;> rfl

theorem record_customerId (c : ConcurrentCalls κ ι) (i : ι) :
    (c.record i).customerId = c.userId := by
  rw [← c.user i]
  unfold record
  cases c.prior <;> rfl

theorem record_ne_prior (c : ConcurrentCalls κ ι) (i : ι) : some (c.record i) ≠ c.prior := by
  intro heq
  have hurl := (c.fresh _ heq.symm i).2
  exact hurl (c.record_url i).symm

end ConcurrentCalls

/-! ## What a transaction has done -/

section Transactions

variable {κ ι : Type}

/-- The transaction has locked the row or inserted one. -/
def Holds : CheckoutTx κ → Prop
  | .locked => True
  | .written own => own ≠ none
  | .found own _ => own ≠ none
  | _ => False

/-- Its own write. -/
def ownWrite : CheckoutTx κ → Option (CheckoutSession κ)
  | .written own => own
  | .found own _ => own
  | .committed own _ => own
  | .returned own _ => own
  | _ => none

/-- The URL it has found. -/
def answer : CheckoutTx κ → Option String
  | .found _ res => res.map CheckoutSession.url
  | .committed _ url => some url
  | .returned _ url => some url
  | _ => none

/-- It has committed a write. -/
def Records : CheckoutTx κ → Prop
  | .committed own _ => own ≠ none
  | .returned own _ => own ≠ none
  | _ => False

/-- At most one call has recorded its session, and every URL that has been returned is that of a
    recorded session. -/
def CallsAgree (c : ConcurrentCalls κ ι) (s : CheckoutState κ ι) : Prop :=
  (∀ i j, Records (s.txs i) → Records (s.txs j) → i = j) ∧
    ∀ i own url, s.txs i = .returned own url →
      ∃ j, Records (s.txs j) ∧ url = (c.call j).url

/-- If the action is the select of a transaction that has not written, another's session is
    committed: the row is no longer the one all calls resolved to. -/
def ReadsRecorded (c : ConcurrentCalls κ ι) (s : CheckoutState κ ι) (a : CheckoutAction ι) : Prop :=
  ∀ i, a = .run i → s.txs i = .written none → s.row ≠ c.prior

instance [DecidableEq κ] (c : ConcurrentCalls κ ι) (s : CheckoutState κ ι) (a : CheckoutAction ι) :
    Decidable (ReadsRecorded c s a) :=
  match a with
  | .run i =>
    decidable_of_iff (s.txs i = .written none → s.row ≠ c.prior) (by simp [ReadsRecorded])
  | .rollback _ => .isTrue (by simp [ReadsRecorded])

/-! ## The steps of a transaction -/

variable [DecidableEq κ] [DecidableEq ι]

/-- The steps of the transaction `i`, in the order of its phases. -/
inductive TxStep (c : ConcurrentCalls κ ι) (s : CheckoutState κ ι) (i : ι) :
    CheckoutState κ ι → Prop where
  /-- no row to lock, or a row that an insert conflicts with -/
  | skip (htx : s.txs i = .started) (hrow : c.prior = none → s.row ≠ none) :
      TxStep c s i (s.setTx i (.written none))
  | lock (htx : s.txs i = .started) (hlock : s.lock = none) (hrow : s.row = c.prior)
      (hprior : c.prior ≠ none) : TxStep c s i { s.setTx i .locked with lock := some i }
  | insert (htx : s.txs i = .started) (hlock : s.lock = none) (hrow : s.row = c.prior)
      (hprior : c.prior = none) :
      TxStep c s i { s.setTx i (.written (some (c.record i))) with lock := some i }
  | update (htx : s.txs i = .locked) : TxStep c s i (s.setTx i (.written (some (c.record i))))
  | find (own : Option (CheckoutSession κ)) (htx : s.txs i = .written own) :
      TxStep c s i (s.setTx i (.found own (own.or s.row)))
  | commit (own : Option (CheckoutSession κ)) (res : CheckoutSession κ)
      (htx : s.txs i = .found own (some res)) :
      TxStep c s i
        ({ s.setTx i (.committed own res.url) with row := own.or s.row }.release i)
  | respond (own : Option (CheckoutSession κ)) (url : String) (htx : s.txs i = .committed own url) :
      TxStep c s i (s.setTx i (.returned own url))
  | fail (htx : ¬ Records (s.txs i)) : TxStep c s i ((s.setTx i .failed).release i)

/-- What holds of a transaction while the committed row is `row`. -/
structure TxOk (c : ConcurrentCalls κ ι) (row : Option (CheckoutSession κ)) (i : ι)
    (tx : CheckoutTx κ) : Prop where
  own : ∀ row, ownWrite tx = some row → row = c.record i
  url : ∀ row url, ownWrite tx = some row → answer tx = some url → url = (c.call i).url
  prior : tx = .locked → c.prior ≠ none
  ignored : c.prior = none → tx = .written none → row ≠ none

/-- What every order of steps keeps. -/
structure TxInv (c : ConcurrentCalls κ ι) (s : CheckoutState κ ι) : Prop where
  holds : ∀ i, Holds (s.txs i) ↔ s.lock = some i
  /-- while a transaction holds the row, it is as all calls resolved to it -/
  locked : s.lock ≠ none → s.row = c.prior
  txs : ∀ i, TxOk c s.row i (s.txs i)
  row : (s.row = c.prior ∧ ∀ i, ¬ Records (s.txs i)) ∨
    ∃ j, Records (s.txs j) ∧ (∀ i, Records (s.txs i) → i = j) ∧ s.row = some (c.record j)

omit [DecidableEq κ] [DecidableEq ι] in
theorem txInv_init (c : ConcurrentCalls κ ι) : TxInv c c.init := by
  refine ⟨fun i => ?_, nofun, fun i => ⟨nofun, nofun, nofun, nofun⟩, ?_⟩
  · exact iff_of_false nofun nofun
  · exact Or.inl ⟨rfl, fun i => nofun⟩

omit [DecidableEq κ] [DecidableEq ι] in
/-- A row that a call wrote is not the one all calls resolved to, in its reference too. -/
private theorem row_eq_prior {c : ConcurrentCalls κ ι} {s : CheckoutState κ ι} (h : TxInv c s)
    {prior row : CheckoutSession κ} (hprior : c.prior = some prior) (hrow : s.row = some row)
    (href : row.clientReferenceId = prior.clientReferenceId) : s.row = c.prior := by
  cases h.row with
  | inl hfirst => exact hfirst.1
  | inr hrecorded =>
    obtain ⟨j, -, -, hj⟩ := hrecorded
    cases hrow.symm.trans hj
    simp only [ConcurrentCalls.record, hprior, CheckoutCall.set] at href
    exact absurd href (c.fresh prior hprior j).1

omit [DecidableEq κ] [DecidableEq ι] in
private theorem row_customerId {c : ConcurrentCalls κ ι} {s : CheckoutState κ ι} (h : TxInv c s)
    {row : CheckoutSession κ} (hrow : s.row = some row) : row.customerId = c.userId := by
  cases h.row with
  | inl hfirst => exact c.prior_user row (hfirst.1.symm.trans hrow)
  | inr hrecorded =>
    obtain ⟨j, -, -, hj⟩ := hrecorded
    cases hrow.symm.trans hj
    exact c.record_customerId j

omit [DecidableEq κ] [DecidableEq ι] in
/-- All rows are of the one user. -/
private theorem ofCustomer_eq {c : ConcurrentCalls κ ι} {s : CheckoutState κ ι} (h : TxInv c s)
    {own : Option (CheckoutSession κ)} {i : ι} (hown : ∀ row, own = some row → row = c.record i) :
    s.ofCustomer own (c.call i).userId = own.or s.row := by
  have huser : ∀ row, own.or s.row = some row → row.customerId = (c.call i).userId := by
    intro row hrow
    rw [c.user i]
    cases hown' : own with
    | none => exact row_customerId h (by rwa [hown'] at hrow)
    | some row' =>
      rw [hown'] at hrow
      cases hrow
      rw [hown _ hown']
      exact c.record_customerId i
  unfold CheckoutState.ofCustomer
  cases hrow : own.or s.row with
  | none => rfl
  | some row => exact Option.filter_some_pos (decide_eq_true (huser row hrow))

omit [DecidableEq κ] [DecidableEq ι] in
/-- The branch is decided by whether there was a row. -/
private theorem firstStatement_eq (c : ConcurrentCalls κ ι) (i : ι) :
    (c.call i).firstStatement =
      match c.prior with
      | none => .insertIgnore
      | some row => .selectForUpdate (some row.clientReferenceId) := by
  have hresolved := c.resolved i
  cases hprior : c.prior with
  | none =>
    simp [CheckoutCall.firstStatement, c.subscribed hprior i, hresolved, hprior]
  | some row =>
    simp [CheckoutCall.firstStatement, hresolved, hprior]

/-- The first statement of a call that resolved to a row. -/
private theorem txStep_selectForUpdate {c : ConcurrentCalls κ ι} {s : CheckoutState κ ι}
    (h : TxInv c s) {i : ι} (htx : s.txs i = .started) {prior : CheckoutSession κ}
    (hprior : c.prior = some prior) :
    TxStep c s i (s.selectForUpdate i (some prior.clientReferenceId)) := by
  unfold CheckoutState.selectForUpdate
  split
  case isTrue hfree =>
    obtain ⟨hmatch, hlock⟩ := hfree
    obtain ⟨row, hrow⟩ := Option.ne_none_iff_exists'.1 hmatch
    obtain ⟨hrow, href⟩ := Option.filter_eq_some_iff.1 hrow
    have href := Option.some.inj (of_decide_eq_true href)
    have hne : c.prior ≠ none := hprior ▸ nofun
    exact TxStep.lock htx hlock (row_eq_prior h hprior hrow href) hne
  case isFalse =>
    refine TxStep.skip htx fun hnone => ?_
    cases hprior.symm.trans hnone

omit [DecidableEq κ] in
/-- The first statement of a call that resolved to none. -/
private theorem txStep_insertIgnore {c : ConcurrentCalls κ ι} {s s' : CheckoutState κ ι}
    (h : TxInv c s) {i : ι} (htx : s.txs i = .started) (hprior : c.prior = none)
    (hinsert : s.insertIgnore i (c.call i) = some s') : TxStep c s i s' := by
  have hfound : s.ofCustomer none (c.call i).userId = s.row :=
    ofCustomer_eq h fun row hrow => by cases hrow
  rw [CheckoutState.insertIgnore, hfound] at hinsert
  split at hinsert
  · cases hinsert
  case isFalse hlock =>
    split at hinsert
    case isTrue hrow =>
      cases hinsert
      exact TxStep.skip htx fun _ => hrow
    case isFalse hrow =>
      cases hinsert
      have hvalues : (c.call i).values = c.record i := by rw [ConcurrentCalls.record, hprior]
      have hnone : s.row = c.prior := (not_not.1 hrow).trans hprior.symm
      rw [hvalues]
      exact TxStep.insert htx (not_not.1 hlock) hnone hprior

omit [DecidableEq ι] in
/-- The update is of the row as all calls resolved to it. -/
private theorem update_eq {c : ConcurrentCalls κ ι} {s : CheckoutState κ ι} (h : TxInv c s)
    {i : ι} (htx : s.txs i = .locked) :
    (s.withReference (c.call i).result.clientReferenceId).map (c.call i).set =
      some (c.record i) := by
  have hlock : s.lock = some i := (h.holds i).1 (by rw [htx]; trivial)
  have hrow : s.row = c.prior := h.locked (hlock ▸ nofun)
  obtain ⟨prior, hprior⟩ := Option.ne_none_iff_exists'.1 ((h.txs i).prior htx)
  simp only [CheckoutState.withReference, hrow, c.resolved i, ConcurrentCalls.record, hprior,
    Option.map_some, Option.filter_some, decide_true, ↓reduceIte]

/-- Every action is one of these steps. -/
theorem txStep_of_step {c : ConcurrentCalls κ ι} {s s' : CheckoutState κ ι}
    {a : CheckoutAction ι} (h : TxInv c s) (hstep : s.step c.call a = some s') :
    ∃ i, TxStep c s i s' ∧ (a = .run i ∨ s'.txs i = .failed) := by
  cases a with
  | rollback i =>
    simp only [CheckoutState.step, CheckoutState.rollback] at hstep
    cases htx : s.txs i with
    | started | locked | written | found =>
      simp only [htx, Option.some.injEq] at hstep
      subst hstep
      refine ⟨i, TxStep.fail ?_, Or.inr (Function.update_self ..)⟩
      rw [htx]
      exact id
    | committed | returned | failed => simp only [htx, reduceCtorEq] at hstep
  | run i =>
    refine ⟨i, ?_, Or.inl rfl⟩
    simp only [CheckoutState.step, CheckoutState.runTx] at hstep
    cases htx : s.txs i with
    | started =>
      simp only [htx, firstStatement_eq] at hstep
      cases hprior : c.prior with
      | none =>
        simp only [hprior] at hstep
        exact txStep_insertIgnore h htx hprior hstep
      | some prior =>
        simp only [hprior, Option.some.injEq] at hstep
        subst hstep
        exact txStep_selectForUpdate h htx hprior
    | locked =>
      simp only [htx, update_eq h htx, Option.some.injEq] at hstep
      subst hstep
      exact TxStep.update htx
    | written own =>
      simp only [htx, Option.some.injEq] at hstep
      subst hstep
      rw [ofCustomer_eq h fun row hrow => (h.txs i).own row (by rw [htx, ← hrow, ownWrite])]
      exact TxStep.find own htx
    | found own res =>
      cases res with
      | none =>
        simp only [htx, Option.some.injEq] at hstep
        subst hstep
        refine TxStep.fail ?_
        rw [htx]
        exact id
      | some res =>
        simp only [htx, Option.some.injEq] at hstep
        subst hstep
        exact TxStep.commit own res htx
    | committed own url =>
      simp only [htx, Option.some.injEq] at hstep
      subst hstep
      exact TxStep.respond own url htx
    | returned | failed => simp only [htx, reduceCtorEq] at hstep

/-! ## The invariant -/

omit [DecidableEq κ] in
private theorem holds_keep {c : ConcurrentCalls κ ι} {s : CheckoutState κ ι} (h : TxInv c s) {i : ι}
    {tx tx' : CheckoutTx κ} (htx : s.txs i = tx) (hkeep : Holds tx' ↔ Holds tx) (j : ι) :
    Holds (Function.update s.txs i tx' j) ↔ s.lock = some j := by
  rw [← h.holds j, Function.update_apply]
  split
  case isTrue hj => rw [hkeep, hj, htx]
  case isFalse => rfl

omit [DecidableEq κ] in
private theorem holds_take {c : ConcurrentCalls κ ι} {s : CheckoutState κ ι} (h : TxInv c s) {i : ι}
    {tx : CheckoutTx κ} (hlock : s.lock = none) (htx : Holds tx) (j : ι) :
    Holds (Function.update s.txs i tx j) ↔ some i = some j := by
  rw [Function.update_apply, Option.some_inj]
  split
  case isTrue hj => exact iff_of_true htx hj.symm
  case isFalse hj =>
    rw [h.holds j, hlock]
    exact iff_of_false nofun (Ne.symm hj)

omit [DecidableEq κ] in
private theorem holds_release {c : ConcurrentCalls κ ι} {s : CheckoutState κ ι} (h : TxInv c s)
    {i : ι} {tx : CheckoutTx κ} (htx : ¬ Holds tx) (j : ι) :
    Holds (Function.update s.txs i tx j) ↔
      (if s.lock = some i then none else s.lock) = some j := by
  rw [Function.update_apply]
  split
  case isTrue hj =>
    subst hj
    refine iff_of_false htx ?_
    split
    case isTrue => exact nofun
    case isFalse hlock => exact hlock
  case isFalse hj =>
    rw [h.holds j]
    split
    case isTrue hlock =>
      rw [hlock, Option.some_inj]
      exact iff_of_false (Ne.symm hj) nofun
    case isFalse => rfl

omit [DecidableEq κ] in
private theorem update_cases {txs : ι → CheckoutTx κ} {i : ι} {tx : CheckoutTx κ}
    {P : ι → CheckoutTx κ → Prop} (hi : P i tx) (hothers : ∀ j, P j (txs j)) (j : ι) :
    P j (Function.update txs i tx j) := by
  rw [Function.update_apply]
  split
  case isTrue hj => exact hj ▸ hi
  case isFalse => exact hothers j

omit [DecidableEq κ] in
/-- A step that commits no write. -/
private theorem TxInv.move {c : ConcurrentCalls κ ι} {s : CheckoutState κ ι} (h : TxInv c s) {i : ι}
    {tx tx' : CheckoutTx κ} {lock : Option ι} (htx : s.txs i = tx)
    (hrec : Records tx' ↔ Records tx)
    (hholds : ∀ j, Holds (Function.update s.txs i tx' j) ↔ lock = some j)
    (hlocked : lock ≠ none → s.row = c.prior) (hok : TxOk c s.row i tx') :
    TxInv c { s.setTx i tx' with lock := lock } := by
  have hrec' : ∀ j, Records (Function.update s.txs i tx' j) ↔ Records (s.txs j) := by
    intro j
    rw [Function.update_apply]
    split
    case isTrue hj => rw [hrec, hj, htx]
    case isFalse => rfl
  refine ⟨hholds, hlocked, update_cases hok h.txs, ?_⟩
  simp only [CheckoutState.setTx, hrec']
  exact h.row

omit [DecidableEq κ] in
/-- A step that ends a transaction without a write. -/
private theorem TxInv.finish {c : ConcurrentCalls κ ι} {s : CheckoutState κ ι} (h : TxInv c s)
    {i : ι} {tx tx' : CheckoutTx κ} (htx : s.txs i = tx) (hrec : Records tx' ↔ Records tx)
    (hholds : ¬ Holds tx') (hok : TxOk c s.row i tx') :
    TxInv c ((s.setTx i tx').release i) := by
  refine h.move htx hrec (holds_release h hholds) (fun hlock => ?_) hok
  split at hlock
  case isTrue => exact absurd rfl hlock
  case isFalse => exact h.locked hlock

omit [DecidableEq κ] in
/-- The commit of a write is the first one, since the row is as all calls resolved to it. -/
private theorem TxInv.commit {c : ConcurrentCalls κ ι} {s : CheckoutState κ ι} (h : TxInv c s)
    {i : ι} {own res : CheckoutSession κ} (htx : s.txs i = .found (some own) (some res)) :
    TxInv c ({ s.setTx i (.committed (some own) res.url) with row := some own }.release i) := by
  have hok := h.txs i
  rw [htx] at hok
  have hlock : s.lock = some i := (h.holds i).1 (by rw [htx]; exact nofun)
  have hrow : s.row = c.prior := h.locked (hlock ▸ nofun)
  have hfirst : ∀ j, ¬ Records (s.txs j) := by
    cases h.row with
    | inl hfirst => exact hfirst.2
    | inr hrecorded =>
      obtain ⟨j, -, -, hj⟩ := hrecorded
      exact absurd (hj.symm.trans hrow) (c.record_ne_prior j)
  refine ⟨holds_release h nofun, fun hheld => ?_, update_cases ?_ fun j => ?_, Or.inr ⟨i, ?_⟩⟩
  · exact absurd (if_pos hlock) hheld
  · exact ⟨hok.own, hok.url, nofun, nofun⟩
  · have hj := h.txs j
    exact ⟨hj.own, hj.url, hj.prior, nofun⟩
  · simp only [CheckoutState.release, CheckoutState.setTx, Function.update_self]
    refine ⟨nofun, fun j hj => ?_, congrArg some (hok.own own rfl)⟩
    by_contra hne
    rw [Function.update_of_ne hne] at hj
    exact hfirst j hj

theorem txInv_step {c : ConcurrentCalls κ ι} {s s' : CheckoutState κ ι} {a : CheckoutAction ι}
    (hstep : s.step c.call a = some s') (h : TxInv c s) : TxInv c s' := by
  obtain ⟨i, hstep, -⟩ := txStep_of_step h hstep
  have hok := h.txs i
  have hrecord : ∀ row, some (c.record i) = some row → row = c.record i :=
    fun row hrow => (Option.some.inj hrow).symm
  cases hstep with
  | skip htx hrow =>
    have hholds : ∀ j, Holds (Function.update s.txs i (.written none) j) ↔ s.lock = some j :=
      holds_keep h htx (iff_of_false (absurd rfl) nofun)
    exact h.move htx Iff.rfl hholds h.locked ⟨nofun, nofun, nofun, fun hnone _ => hrow hnone⟩
  | lock htx hlock hrow hprior =>
    exact h.move htx Iff.rfl (holds_take h hlock trivial) (fun _ => hrow)
      ⟨nofun, nofun, fun _ => hprior, nofun⟩
  | insert htx hlock hrow hprior =>
    exact h.move htx Iff.rfl (holds_take h hlock nofun) (fun _ => hrow)
      ⟨hrecord, nofun, nofun, nofun⟩
  | update htx =>
    have hholds : ∀ j, Holds (Function.update s.txs i (.written (some (c.record i))) j) ↔
        s.lock = some j := holds_keep h htx (iff_of_true nofun trivial)
    exact h.move htx Iff.rfl hholds h.locked ⟨hrecord, nofun, nofun, nofun⟩
  | find own htx =>
    rw [htx] at hok
    refine h.move htx Iff.rfl (holds_keep h htx Iff.rfl) h.locked
      ⟨hok.own, fun row url hown hurl => ?_, nofun, nofun⟩
    cases hown
    cases hurl
    rw [hok.own row rfl, c.record_url]
  | commit own res htx =>
    rw [htx] at hok
    cases own with
    | none =>
      have hend : TxInv c ((s.setTx i (.committed none res.url)).release i) :=
        h.finish htx (iff_of_false (absurd rfl) nofun) nofun
          ⟨nofun, nofun, nofun, nofun⟩
      exact hend
    | some own => exact h.commit htx
  | respond own url htx =>
    rw [htx] at hok
    exact h.move htx Iff.rfl (holds_keep h htx Iff.rfl) h.locked ⟨hok.own, hok.url, nofun, nofun⟩
  | fail htx =>
    exact h.finish rfl (iff_of_false nofun htx) nofun ⟨nofun, nofun, nofun, nofun⟩

/-! ## Agreement -/

/-- What was found by a transaction without a write of its own is recorded. -/
def FoundRecorded (c : ConcurrentCalls κ ι) (s : CheckoutState κ ι) : Prop :=
  ∀ i url, ownWrite (s.txs i) = none → answer (s.txs i) = some url →
    ∃ j, Records (s.txs j) ∧ url = (c.call j).url

omit [DecidableEq κ] [DecidableEq ι] in
theorem callsAgree {c : ConcurrentCalls κ ι} {s : CheckoutState κ ι} (h : TxInv c s)
    (hfound : FoundRecorded c s) : CallsAgree c s := by
  refine ⟨fun i j hi hj => ?_, fun i own url htx => ?_⟩
  · cases h.row with
    | inl hfirst => exact absurd hi (hfirst.2 i)
    | inr hrecorded =>
      obtain ⟨k, -, hk, -⟩ := hrecorded
      rw [hk i hi, hk j hj]
  · cases own with
    | none =>
      refine hfound i url ?_ ?_
      · rw [htx, ownWrite]
      · rw [htx, answer]
    | some row =>
      have hok := h.txs i
      rw [htx] at hok
      refine ⟨i, ?_, hok.url row url rfl rfl⟩
      rw [htx]
      exact nofun

omit [DecidableEq κ] in
/-- A step leaves the other transactions alone. -/
private theorem txs_of_ne {c : ConcurrentCalls κ ι} {s s' : CheckoutState κ ι} {i j : ι}
    (hstep : TxStep c s i s') (hj : j ≠ i) : s'.txs j = s.txs j := by
  cases hstep <;> exact Function.update_of_ne hj _ _

omit [DecidableEq κ] in
/-- Once a session is recorded it stays so. -/
private theorem records_step {c : ConcurrentCalls κ ι} {s s' : CheckoutState κ ι} {i : ι}
    (hstep : TxStep c s i s') {j : ι} (h : Records (s.txs j)) : Records (s'.txs j) := by
  by_cases hj : j = i
  case neg => rwa [txs_of_ne hstep hj]
  case pos =>
    subst hj
    cases hstep with
    | respond own url htx =>
      rw [htx] at h
      simp only [CheckoutState.setTx, Function.update_self]
      exact h
    | fail htx => exact absurd h htx
    | skip htx | lock htx | insert htx | update htx | find _ htx | commit _ _ htx =>
      rw [htx] at h
      exact h.elim

theorem foundRecorded_step {c : ConcurrentCalls κ ι} {s s' : CheckoutState κ ι}
    {a : CheckoutAction ι} (hstep : s.step c.call a = some s') (hread : ReadsRecorded c s a)
    (hinv : TxInv c s) (h : FoundRecorded c s) : FoundRecorded c s' := by
  obtain ⟨i, hstep, hrun⟩ := txStep_of_step hinv hstep
  -- what is recorded before the step suffices
  suffices hold : ∀ k url, ownWrite (s'.txs k) = none → answer (s'.txs k) = some url →
      ∃ j, Records (s.txs j) ∧ url = (c.call j).url by
    intro k url hown hurl
    obtain ⟨j, hj, heq⟩ := hold k url hown hurl
    exact ⟨j, records_step hstep hj, heq⟩
  intro k url hown hurl
  by_cases hk : k = i
  case neg =>
    rw [txs_of_ne hstep hk] at hown hurl
    exact h k url hown hurl
  case pos =>
    subst hk
    cases hstep with
    | skip htx | lock htx | insert htx | update htx | fail htx =>
      simp [CheckoutState.release, CheckoutState.setTx, answer] at hurl
    | find own htx =>
      simp only [CheckoutState.setTx, Function.update_self, ownWrite, answer] at hown hurl hrun
      subst hown
      have hrun := hrun.resolve_right fun hfailed => by cases hfailed
      have hrow : s.row ≠ c.prior := hread k hrun htx
      cases hinv.row with
      | inl hfirst => exact absurd hfirst.1 hrow
      | inr hrecorded =>
        obtain ⟨j, hj, -, hj'⟩ := hrecorded
        rw [hj'] at hurl
        cases hurl
        exact ⟨j, hj, c.record_url j⟩
    | commit own res htx =>
      simp only [CheckoutState.release, CheckoutState.setTx, Function.update_self, ownWrite, answer]
        at hown hurl
      apply h k url
      · rw [htx]; exact hown
      · rw [htx]; exact hurl
    | respond own url' htx =>
      simp only [CheckoutState.setTx, Function.update_self, ownWrite, answer] at hown hurl
      apply h k url
      · rw [htx]; exact hown
      · rw [htx]; exact hurl

/-! ## A call returns the old row -/

/-- Once a call without a write of its own has found the row all calls resolved to, it can return
    the URL of that row. -/
private theorem not_callsAgree {c : ConcurrentCalls κ ι} {s : CheckoutState κ ι}
    (hinv : TxInv c s) {i : ι} (htx : s.txs i = .written none) (hrow : s.row = c.prior) :
    ∃ t, run (CheckoutState.step c.call) s [.run i, .run i, .run i] = some t ∧
      ¬ CallsAgree c t := by
  obtain ⟨prior, hprior⟩ : ∃ prior, c.prior = some prior := by
    cases hprior : c.prior with
    | none => exact absurd (hrow.trans hprior) ((hinv.txs i).ignored hprior htx)
    | some prior => exact ⟨prior, rfl⟩
  have hfound : s.ofCustomer none (c.call i).userId = some prior :=
    (ofCustomer_eq hinv fun row hown => by cases hown).trans (hrow.trans hprior)
  simp only [run, CheckoutState.step, CheckoutState.runTx, htx, hfound, CheckoutState.setTx,
    CheckoutState.release, Function.update_self]
  refine ⟨_, rfl, fun hagree => ?_⟩
  obtain ⟨j, -, hurl⟩ := hagree.2 i none prior.url (Function.update_self ..)
  exact (c.fresh prior hprior j).2 hurl.symm

/-- The calls agree in every run in which a call that has written nothing reads only what another
    has recorded; where a run has another such read, the run up to it can go on to return the URL
    of the row that all calls resolved to. -/
theorem checkout_agreement (c : ConcurrentCalls κ ι) (as : List (CheckoutAction ι)) :
    (Meets (CheckoutState.step c.call) (ReadsRecorded c) c.init as →
      Always (CheckoutState.step c.call) (CallsAgree c) c.init as) ∧
    (¬ Meets (CheckoutState.step c.call) (ReadsRecorded c) c.init as →
      ∃ pre bs t, pre <+: as ∧ run (CheckoutState.step c.call) c.init (pre ++ bs) = some t ∧
        ¬ CallsAgree c t) := by
  constructor
  · intro hreads
    exact always_of_invariant (I := fun s => TxInv c s ∧ FoundRecorded c s)
      (fun s a s' hstep hread h => ⟨txInv_step hstep h.1, foundRecorded_step hstep hread h.1 h.2⟩)
      (fun s h => callsAgree h.1 h.2) hreads ⟨txInv_init c, nofun⟩
  · intro hreads
    obtain ⟨pre, s, a, hpre, hs, hread⟩ := exists_of_not_meets hreads
    have hinv : TxInv c s :=
      run_invariant (fun s a s' hstep h => txInv_step hstep h) hs (txInv_init c)
    simp only [ReadsRecorded, not_forall, not_not] at hread
    obtain ⟨i, -, htx, hrow⟩ := hread
    obtain ⟨t, ht, hnot⟩ := not_callsAgree hinv htx hrow
    exact ⟨pre, _, t, hpre, run_append.2 ⟨s, hs, ht⟩, hnot⟩

end Transactions

/-- Two calls that have both found the session of the row expired. -/
def twoRenewals : ConcurrentCalls Nat Bool where
  prior := some ⟨0, 1, "cs_1", "user", "checkout.stripe.com/1"⟩
  userId := "user"
  call
    | false => ⟨⟨some 1, none⟩, "user", 10, 2, "cs_2", "checkout.stripe.com/2"⟩
    | true => ⟨⟨some 1, none⟩, "user", 11, 3, "cs_3", "checkout.stripe.com/3"⟩
  user := by decide
  prior_user := by
    intro row hrow
    cases hrow
    rfl
  resolved := by decide
  subscribed := nofun
  fresh := by
    intro row hrow
    cases hrow
    decide

/-- One call locks the row, updates it and commits before the other one, which has skipped it, reads
    it. -/
theorem checkout_agreement_skipped :
    (∃ t, run (CheckoutState.step twoRenewals.call) twoRenewals.init
        [.run false, .run true, .run false, .run false, .run false, .run true, .run true,
          .run true] = some t ∧ t.txs true = .returned none "checkout.stripe.com/2") ∧
      Always (CheckoutState.step twoRenewals.call) (CallsAgree twoRenewals) twoRenewals.init
        [.run false, .run true, .run false, .run false, .run false, .run true, .run true,
          .run true] :=
  ⟨⟨_, rfl, by decide⟩, (checkout_agreement twoRenewals _).1 (by decide +kernel)⟩

/-- One call locks the row. The other one skips it, reads it and returns its URL before the first
    one has updated it. -/
theorem not_checkout_agreement : ∃ t, run (CheckoutState.step twoRenewals.call) twoRenewals.init
    [.run false, .run true, .run true, .run true, .run true, .run false, .run false, .run false,
      .run false] = some t ∧ ¬ CallsAgree twoRenewals t := by
  refine ⟨_, rfl, fun hagree => ?_⟩
  obtain ⟨j, -, hurl⟩ := hagree.2 true none "checkout.stripe.com/1" (by decide)
  cases j with
  | false => exact absurd hurl (by decide)
  | true => exact absurd hurl (by decide)

end BlockFeed.Spec
