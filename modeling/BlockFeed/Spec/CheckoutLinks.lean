import BlockFeed.Native.CheckoutSession

/-!
# Open checkout links of one user

The row refers to one Stripe session, so if a new session is recorded only when that of the row is
not open, at most one of the links the user has is open. The handler takes the status of the
session from the cache, and the entry there may be of a session that the row no longer refers to.
Where such an entry is expired, or complete with a canceled subscription or a deleted customer,
the handler makes a new link while that of the row is open.

`LinkInv` is what the steps keep otherwise, and `always_oneOpenLink` is the result for whole runs:
at most one link is open as long as no such entry is met, and two can be open once it is.
-/

namespace BlockFeed.Spec

open BlockFeed.Native Transition

/-! ## Links -/

/-- The session is open in Stripe. -/
def IsOpen {κ : Type} (s : LinkState κ) (id : String) : Prop :=
  ∃ sess, s.stripe id = some sess ∧ sess.status = some .opened

/-- At most one of the sessions whose URLs have been returned is open. -/
def OneOpenLink {κ : Type} (urls : StripeUrls) (s : LinkState κ) : Prop :=
  ∀ id id', urls.checkout id ∈ s.returned → urls.checkout id' ∈ s.returned →
    IsOpen s id → IsOpen s id' → id = id'

/-- The handler goes on to make a new link. -/
def MakesLink {κ : Type} : Resolution κ → Prop
  | .deleteRow => True
  | .resolved _ => True
  | _ => False

/-- The session of the row is not open when the handler makes a new link because of a cached
    session other than that of the row, and when the row is removed after the deletion of a
    customer. -/
def NoOpenReplaced {κ : Type} (urls : StripeUrls) (s : LinkState κ) (a : LinkAction κ) : Prop :=
  (a = .run → ∀ existing sess, s.call = some (.get .handler existing) → s.cache = some sess →
    sess.id ≠ existing.sessionId → MakesLink (resolveCheckoutSession urls.portal existing sess) →
    ¬ IsOpen s existing.sessionId) ∧
  (a = .customerDeleted → ∀ row, s.row = some row → ¬ IsOpen s row.sessionId)

/-! ### A run can be checked for it -/

instance {κ : Type} (s : LinkState κ) (id : String) : Decidable (IsOpen s id) :=
  decidable_of_iff ((s.stripe id).any fun sess => sess.status = some .opened) (by
    simp [IsOpen, Option.any_eq_true])

instance {κ : Type} : (resolution : Resolution κ) → Decidable (MakesLink resolution)
  | .deleteRow | .resolved _ => .isTrue trivial
  | .url _ | .invalidStatus => .isFalse id

instance {κ : Type} (urls : StripeUrls) (s : LinkState κ) (a : LinkAction κ) :
    Decidable (NoOpenReplaced urls s a) :=
  match a with
  | .run =>
    match hcall : s.call, hcache : s.cache with
    | some (.get .handler existing), some sess =>
      decidable_of_iff (sess.id ≠ existing.sessionId →
        MakesLink (resolveCheckoutSession urls.portal existing sess) →
          ¬ IsOpen s existing.sessionId) (by simp [NoOpenReplaced, hcall, hcache])
    | none, _ | _, none | some (.get .middleware _), _ | some (.findFirst _), _
    | some (.retrieve _ _), _ | some (.set _ _ _), _ | some (.deleteRow _), _
    | some (.create _), _ | some (.transaction _), _ | some (.respond _), _ =>
      .isTrue (by simp [NoOpenReplaced, *])
  | .customerDeleted =>
    match hrow : s.row with
    | some row =>
      decidable_of_iff (¬ IsOpen s row.sessionId) (by simp [NoOpenReplaced, hrow])
    | none => .isTrue (by simp [NoOpenReplaced, hrow])
  | .start _ | .create _ _ _ | .fail | .change _ | .expireCache | .invalidate =>
    .isTrue (by simp [NoOpenReplaced])

section Links

variable {κ : Type} {urls : StripeUrls}

/-- If the URL is that of an open session, the row refers to the session. -/
def Linked (urls : StripeUrls) (s : LinkState κ) (url : String) : Prop :=
  ∀ id, url = urls.checkout id → s.stripe id ≠ none ∧
    (IsOpen s id → ∃ row, s.row = some row ∧ row.sessionId = id)

/-- What is known of a session as it was at some time: once it was not open, it is not now. -/
def Seen (s : LinkState κ) (sess : StripeSession) : Prop :=
  s.stripe sess.id ≠ none ∧ (sess.status ≠ some .opened → ¬ IsOpen s sess.id)

/-- A row that a call has read may have been removed, but not while its session was open. -/
structure Held (urls : StripeUrls) (s : LinkState κ) (existing : CheckoutSession κ) : Prop where
  url : existing.url = urls.checkout existing.sessionId
  known : s.stripe existing.sessionId ≠ none
  only : ∀ row, s.row = some row → row = existing
  opened : IsOpen s existing.sessionId → s.row = some existing

/-- The session of the row, if there is one, is not open. -/
def Replaceable (s : LinkState κ) : Prop :=
  ∀ row, s.row = some row → ¬ IsOpen s row.sessionId

/-- What holds of a call before its next step. -/
def PhaseOk (urls : StripeUrls) (s : LinkState κ) : CheckoutPhase κ → Prop
  | .findFirst _ => True
  | .get _ existing => Held urls s existing
  | .retrieve _ existing => Held urls s existing
  | .set _ existing sess => Held urls s existing ∧ Seen s sess ∧ sess.id = existing.sessionId
  | .deleteRow _ => Replaceable s
  | .create _ => Replaceable s
  | .transaction call => Replaceable s ∧ s.stripe call.sessionId ≠ none ∧
      call.url = urls.checkout call.sessionId
  | .respond url => Linked urls s url

/-- What every order of steps keeps that replace no open session. -/
structure LinkInv (urls : StripeUrls) (s : LinkState κ) : Prop where
  stripe : ∀ id sess, s.stripe id = some sess → sess.id = id
  row : ∀ row, s.row = some row →
    s.stripe row.sessionId ≠ none ∧ row.url = urls.checkout row.sessionId
  cache : ∀ sess, s.cache = some sess → Seen s sess
  call : ∀ phase, s.call = some phase → PhaseOk urls s phase
  returned : ∀ url ∈ s.returned, Linked urls s url

theorem linkInv_init (urls : StripeUrls) : LinkInv urls (LinkState.init : LinkState κ) :=
  ⟨nofun, nofun, nofun, nofun, nofun⟩

theorem oneOpenLink_of_linkInv {s : LinkState κ} (h : LinkInv urls s) : OneOpenLink urls s := by
  intro id id' hid hid' hopen hopen'
  obtain ⟨row, hrow, rfl⟩ := (h.returned _ hid id rfl).2 hopen
  obtain ⟨row', hrow', rfl⟩ := (h.returned _ hid' id' rfl).2 hopen'
  cases hrow.symm.trans hrow'
  rfl

/-! ## Changes in Stripe -/

/-- Stripe forgets no session and reopens none, and nothing else changes. -/
structure Ages (s t : LinkState κ) : Prop where
  row : t.row = s.row
  known : ∀ id, s.stripe id ≠ none → t.stripe id ≠ none
  opened : ∀ id, s.stripe id ≠ none → IsOpen t id → IsOpen s id

theorem Linked.ages {s t : LinkState κ} {url : String} (h : Linked urls s url) (hst : Ages s t) :
    Linked urls t url := by
  intro id hid
  obtain ⟨hknown, hopen⟩ := h id hid
  refine ⟨hst.known id hknown, fun ht => ?_⟩
  rw [hst.row]
  exact hopen (hst.opened id hknown ht)

theorem Seen.ages {s t : LinkState κ} {sess : StripeSession} (h : Seen s sess) (hst : Ages s t) :
    Seen t sess :=
  ⟨hst.known _ h.1, fun hstatus ht => h.2 hstatus (hst.opened _ h.1 ht)⟩

theorem Held.ages {s t : LinkState κ} {existing : CheckoutSession κ} (h : Held urls s existing)
    (hst : Ages s t) : Held urls t existing := by
  refine ⟨h.url, hst.known _ h.known, fun row hrow => ?_, fun ht => ?_⟩
  · rw [hst.row] at hrow
    exact h.only row hrow
  · rw [hst.row]
    exact h.opened (hst.opened _ h.known ht)

theorem Replaceable.ages {s t : LinkState κ} (hinv : LinkInv urls s) (h : Replaceable s)
    (hst : Ages s t) : Replaceable t := by
  intro row hrow ht
  rw [hst.row] at hrow
  exact h row hrow (hst.opened _ (hinv.row row hrow).1 ht)

theorem PhaseOk.ages {s t : LinkState κ} (hinv : LinkInv urls s) (hst : Ages s t) :
    ∀ {phase : CheckoutPhase κ}, PhaseOk urls s phase → PhaseOk urls t phase
  | .findFirst _, h => h
  | .get _ _, h => Held.ages h hst
  | .retrieve _ _, h => Held.ages h hst
  | .set _ _ _, h => ⟨Held.ages h.1 hst, Seen.ages h.2.1 hst, h.2.2⟩
  | .deleteRow _, h => Replaceable.ages hinv h hst
  | .create _, h => Replaceable.ages hinv h hst
  | .transaction _, h => ⟨Replaceable.ages hinv h.1 hst, hst.known _ h.2.1, h.2.2⟩
  | .respond _, h => Linked.ages h hst

/-- A step that leaves the row and the returned URLs as they are. -/
theorem LinkInv.ages {s t : LinkState κ} (h : LinkInv urls s) (hst : Ages s t)
    (hstripe : ∀ id sess, t.stripe id = some sess → sess.id = id)
    (hcache : ∀ sess, t.cache = some sess → Seen s sess)
    (hcall : ∀ phase, t.call = some phase → PhaseOk urls t phase)
    (hreturned : t.returned = s.returned) : LinkInv urls t := by
  refine ⟨hstripe, fun row hrow => ?_, fun sess hsess => ?_, hcall, fun url hurl => ?_⟩
  · rw [hst.row] at hrow
    have hok := h.row row hrow
    exact ⟨hst.known _ hok.1, hok.2⟩
  · exact (hcache sess hsess).ages hst
  · rw [hreturned] at hurl
    exact (h.returned url hurl).ages hst

/-- A step within the call or the cache. -/
theorem LinkInv.move {s : LinkState κ} (h : LinkInv urls s) {cache : Option StripeSession}
    {call : Option (CheckoutPhase κ)} (hcache : ∀ sess, cache = some sess → Seen s sess)
    (hcall : ∀ phase, call = some phase → PhaseOk urls s phase) :
    LinkInv urls { s with cache := cache, call := call } := by
  have hsame : Ages s { s with cache := cache, call := call } :=
    ⟨rfl, fun _ hid => hid, fun _ _ hopen => hopen⟩
  exact h.ages hsame h.stripe hcache
    (fun phase hphase => PhaseOk.ages h hsame (hcall phase hphase)) rfl

theorem ages_setSession {s : LinkState κ} {sess : StripeSession}
    (h : ∀ old, s.stripe sess.id = some old →
      old.status = some .opened ∨ sess.status ≠ some .opened) : Ages s (s.setSession sess) := by
  refine ⟨rfl, fun id hid => ?_, fun id hid hopen => ?_⟩
  · simp only [LinkState.setSession, Function.update_apply]
    split
    · exact nofun
    · exact hid
  · obtain ⟨sess', hsess', hstatus⟩ := hopen
    simp only [LinkState.setSession, Function.update_apply] at hsess'
    split at hsess'
    case isTrue heq =>
      subst heq
      cases hsess'
      obtain ⟨old, hold⟩ := Option.ne_none_iff_exists'.1 hid
      exact ⟨old, hold, (h old hold).resolve_right (absurd hstatus)⟩
    case isFalse => exact ⟨sess', hsess', hstatus⟩

private theorem ids_setSession {s : LinkState κ}
    (h : ∀ id sess, s.stripe id = some sess → sess.id = id) (new : StripeSession) {id : String}
    {sess : StripeSession} (hsess : (s.setSession new).stripe id = some sess) : sess.id = id := by
  simp only [LinkState.setSession, Function.update_apply] at hsess
  split at hsess
  case isTrue hid =>
    cases hsess
    exact hid.symm
  case isFalse => exact h id sess hsess

/-! ## Changes of the row -/

/-- While no link of the row is open, no link that has been returned is. -/
theorem Linked.replace {s t : LinkState κ} {url : String} (h : Linked urls s url)
    (hrow : Replaceable s) (hstripe : t.stripe = s.stripe) : Linked urls t url := by
  intro id hid
  obtain ⟨hknown, hopen⟩ := h id hid
  refine ⟨by rwa [hstripe], fun ht => ?_⟩
  have hs : IsOpen s id := by rwa [IsOpen, hstripe] at ht
  obtain ⟨row, hrow', rfl⟩ := hopen hs
  exact absurd hs (hrow row hrow')

theorem Held.removed {s t : LinkState κ} {existing : CheckoutSession κ} (h : Held urls s existing)
    (hrow : Replaceable s) (hstripe : t.stripe = s.stripe) (hnone : t.row = none) :
    Held urls t existing := by
  refine ⟨h.url, by rw [hstripe]; exact h.known, fun row hrow' => ?_, fun ht => ?_⟩
  · rw [hnone] at hrow'
    cases hrow'
  · have hs : IsOpen s existing.sessionId := by rwa [IsOpen, hstripe] at ht
    exact absurd hs (hrow existing (h.opened hs))

theorem PhaseOk.removed {s t : LinkState κ} (hrow : Replaceable s) (hstripe : t.stripe = s.stripe)
    (hnone : t.row = none) : ∀ {phase : CheckoutPhase κ}, PhaseOk urls s phase →
      PhaseOk urls t phase
  | .findFirst _, h => h
  | .get _ _, h => Held.removed h hrow hstripe hnone
  | .retrieve _ _, h => Held.removed h hrow hstripe hnone
  | .set _ _ _, h => by
    obtain ⟨hheld, hseen, hid⟩ := h
    refine ⟨hheld.removed hrow hstripe hnone, ?_, hid⟩
    rwa [Seen, IsOpen, hstripe]
  | .deleteRow _, _ => fun row ht => nomatch hnone.symm.trans ht
  | .create _, _ => fun row ht => nomatch hnone.symm.trans ht
  | .transaction _, h => by
    refine ⟨fun row ht => ?_, ?_, h.2.2⟩
    · cases hnone.symm.trans ht
    · rw [hstripe]
      exact h.2.1
  | .respond _, h => Linked.replace h hrow hstripe

/-- A step that replaces or removes the row. -/
theorem LinkInv.replace {s : LinkState κ} (h : LinkInv urls s) (hold : Replaceable s)
    {row : Option (CheckoutSession κ)} {call : Option (CheckoutPhase κ)}
    (hrow : ∀ r, row = some r →
      s.stripe r.sessionId ≠ none ∧ r.url = urls.checkout r.sessionId)
    (hcall : ∀ phase, call = some phase →
      PhaseOk urls { s with row := row, call := call } phase) :
    LinkInv urls { s with row := row, call := call } :=
  ⟨h.stripe, hrow, h.cache, hcall, fun url hurl => (h.returned url hurl).replace hold rfl⟩

/-- The transaction leaves the row of the new session, or the one that was there. -/
theorem transaction_cases [DecidableEq κ] {call : CheckoutCall κ}
    {row : Option (CheckoutSession κ)} {row' : CheckoutSession κ}
    (h : call.transaction row = some row') :
    (row'.sessionId = call.sessionId ∧ row'.url = call.url) ∨ row = some row' := by
  unfold CheckoutCall.transaction at h
  cases hfirst : call.firstStatement with
  | selectForUpdate clientReferenceId =>
    rw [hfirst] at h
    obtain ⟨r, hr, hrow'⟩ := Option.map_eq_some_iff.1 h
    split at hrow'
    · subst hrow'
      exact Or.inl ⟨rfl, rfl⟩
    · subst hrow'
      exact Or.inr hr
  | insertIgnore =>
    rw [hfirst] at h
    cases row with
    | none =>
      cases h
      exact Or.inl ⟨rfl, rfl⟩
    | some r => exact Or.inr h

/-! ## The decision -/

/-- A new link is made only for a session that was not open. -/
theorem status_of_makesLink {portalUrl : String} {existing : CheckoutSession κ}
    {sess : StripeSession} (h : MakesLink (resolveCheckoutSession portalUrl existing sess)) :
    sess.status ≠ some .opened := by
  intro hstatus
  rw [resolveCheckoutSession, hstatus] at h
  exact h

theorem url_of_resolve {portalUrl url : String} {existing : CheckoutSession κ}
    {sess : StripeSession} (h : resolveCheckoutSession portalUrl existing sess = .url url) :
    url = existing.url ∨ url = portalUrl := by
  unfold resolveCheckoutSession at h
  split at h
  · exact Or.inl (Resolution.url.inj h).symm
  · cases h
  · split at h
    · cases h
    · split at h
      · cases h
      · exact Or.inr (Resolution.url.inj h).symm
  · cases h

theorem Held.linked {s : LinkState κ} {existing : CheckoutSession κ}
    (h : Held urls s existing) : Linked urls s existing.url := by
  intro id hid
  cases urls.checkout_inj (h.url.symm.trans hid)
  exact ⟨h.known, fun hopen => ⟨existing, h.opened hopen, rfl⟩⟩

/-- The decision is right if it makes no new link while that of the row is open. -/
theorem phaseOk_proceed {s : LinkState κ} {caller : CheckoutCaller}
    {existing : CheckoutSession κ} {sess : StripeSession} (hheld : Held urls s existing)
    (hlink : caller = .handler →
      MakesLink (resolveCheckoutSession urls.portal existing sess) →
        ¬ IsOpen s existing.sessionId) {phase : CheckoutPhase κ}
    (hphase : LinkState.proceed urls existing sess caller = some phase) :
    PhaseOk urls s phase := by
  cases caller with
  | middleware => cases hphase
  | handler =>
    have hreplace : MakesLink (resolveCheckoutSession urls.portal existing sess) →
        Replaceable s := by
      intro hmakes row hrow
      rw [hheld.only row hrow]
      exact hlink rfl hmakes
    simp only [LinkState.proceed] at hphase
    cases hresolve : resolveCheckoutSession urls.portal existing sess with
    | url url =>
      rw [hresolve] at hphase
      cases hphase
      cases url_of_resolve hresolve with
      | inl hurl => exact hurl ▸ hheld.linked
      | inr hurl => exact fun id hid => absurd (hurl.symm.trans hid) (urls.portal_ne id)
    | deleteRow =>
      rw [hresolve] at hphase hreplace
      cases hphase
      exact hreplace trivial
    | resolved result =>
      rw [hresolve] at hphase hreplace
      cases hphase
      exact hreplace trivial
    | invalidStatus =>
      rw [hresolve] at hphase
      cases hphase

/-! ## One step -/

variable [DecidableEq κ]

namespace LinkInv

variable {s s' : LinkState κ} {caller : CheckoutCaller} {existing : CheckoutSession κ}

omit [DecidableEq κ] in
/-- A step to the given phase. -/
theorem next (h : LinkInv urls s) (phase : CheckoutPhase κ) (hphase : PhaseOk urls s phase) :
    LinkInv urls { s with call := some phase } := by
  refine h.move h.cache fun phase' hphase' => ?_
  cases hphase'
  exact hphase

omit [DecidableEq κ] in
/-- The end of the call. -/
theorem endCall (h : LinkInv urls s) : LinkInv urls { s with call := none } := by
  refine h.move h.cache fun phase hphase => ?_
  cases hphase

theorem findFirst (h : LinkInv urls s) (hrun : s.runCall urls (.findFirst caller) = some s') :
    LinkInv urls s' := by
  simp only [LinkState.runCall] at hrun
  split at hrun
  case h_1 existing hrow =>
    cases hrun
    have hok := h.row existing hrow
    refine h.next (.get _ existing) ⟨hok.2, hok.1, fun row hother => ?_, fun _ => hrow⟩
    exact (Option.some.inj (hrow.symm.trans hother)).symm
  case h_2 hrow =>
    cases hrun
    refine h.next (.create ⟨none, none⟩) fun row hother => ?_
    cases hrow.symm.trans hother
  case h_3 =>
    cases hrun
    exact h.endCall

theorem get (h : LinkInv urls s) (hcall : s.call = some (.get caller existing))
    (hstep : NoOpenReplaced urls s .run)
    (hrun : s.runCall urls (.get caller existing) = some s') : LinkInv urls s' := by
  have hok := h.call (.get caller existing) hcall
  simp only [LinkState.runCall] at hrun
  split at hrun
  case h_1 sess hcache =>
    cases hrun
    refine h.move h.cache fun phase hphase => phaseOk_proceed hok ?_ hphase
    rintro rfl hmakes
    by_cases hid : sess.id = existing.sessionId
    · exact hid ▸ (h.cache sess hcache).2 (status_of_makesLink hmakes)
    · exact hstep.1 rfl existing sess hcall hcache hid hmakes
  case h_2 =>
    cases hrun
    exact h.next (.retrieve caller existing) hok

theorem retrieve (h : LinkInv urls s) (hok : Held urls s existing)
    (hrun : s.runCall urls (.retrieve caller existing) = some s') : LinkInv urls s' := by
  simp only [LinkState.runCall] at hrun
  split at hrun
  case h_1 sess hsess =>
    cases hrun
    have hid := h.stripe existing.sessionId sess hsess
    refine h.next (.set caller existing sess)
      ⟨hok, ⟨?_, fun hstatus hopen => ?_⟩, hid⟩
    · rw [hid]
      exact hok.known
    · obtain ⟨now, hnow, hopened⟩ := hopen
      rw [hid] at hnow
      cases hsess.symm.trans hnow
      exact hstatus hopened
  case h_2 =>
    cases hrun
    exact h.endCall

theorem set {sess : StripeSession} (h : LinkInv urls s)
    (hok : PhaseOk urls s (.set caller existing sess))
    (hrun : s.runCall urls (.set caller existing sess) = some s') : LinkInv urls s' := by
  cases hrun
  obtain ⟨hheld, hseen, hid⟩ := hok
  refine h.move (fun sess' hsess' => ?_) fun phase hphase => ?_
  · cases hsess'
    exact hseen
  · refine phaseOk_proceed hheld (fun _ hmakes => ?_) hphase
    exact hid ▸ hseen.2 (status_of_makesLink hmakes)

theorem deleteRow (h : LinkInv urls s) (hok : Replaceable s)
    (hrun : s.runCall urls (.deleteRow existing) = some s') : LinkInv urls s' := by
  cases hrun
  have hleft : ∀ row, (s.row.filter fun row => row.id ≠ existing.id) = some row →
      s.row = some row := fun row hrow => (Option.filter_eq_some_iff.1 hrow).1
  refine h.replace hok (fun row hrow => h.row row (hleft row hrow)) fun phase hphase => ?_
  cases hphase
  exact fun row hrow => hok row (hleft row hrow)

theorem transaction {call : CheckoutCall κ} (h : LinkInv urls s)
    (hok : PhaseOk urls s (.transaction call))
    (hrun : s.runCall urls (.transaction call) = some s') : LinkInv urls s' := by
  obtain ⟨hreplace, hknown, hurl⟩ := hok
  simp only [LinkState.runCall] at hrun
  split at hrun
  case h_1 row htransaction =>
    cases hrun
    have hrow : s.stripe row.sessionId ≠ none ∧ row.url = urls.checkout row.sessionId := by
      cases transaction_cases htransaction with
      | inl hnew => rw [hnew.1, hnew.2]; exact ⟨hknown, hurl⟩
      | inr hold => exact h.row row hold
    refine h.replace hreplace (fun r hr => ?_) fun phase hphase => ?_
    · cases hr
      exact hrow
    · cases hphase
      intro id hid
      cases urls.checkout_inj (hrow.2.symm.trans hid)
      exact ⟨hrow.1, fun _ => ⟨row, rfl, rfl⟩⟩
  case h_2 =>
    cases hrun
    exact h.endCall

theorem respond {url : String} (h : LinkInv urls s) (hok : Linked urls s url)
    (hrun : s.runCall urls (.respond url) = some s') : LinkInv urls s' := by
  cases hrun
  refine ⟨h.stripe, h.row, h.cache, nofun, fun url' hurl' => ?_⟩
  cases List.mem_cons.1 hurl' with
  | inl heq => exact heq ▸ hok
  | inr hold => exact h.returned url' hold

/-- The steps of a call. -/
theorem runCall {phase : CheckoutPhase κ} (h : LinkInv urls s)
    (hrun : s.runCall urls phase = some s') (hcall : s.call = some phase)
    (hstep : NoOpenReplaced urls s .run) : LinkInv urls s' := by
  have hok := h.call phase hcall
  cases phase with
  | findFirst caller => exact h.findFirst hrun
  | get caller existing => exact h.get hcall hstep hrun
  | retrieve caller existing => exact h.retrieve hok hrun
  | set caller existing sess => exact h.set hok hrun
  | deleteRow existing => exact h.deleteRow hok hrun
  | create result => cases hrun
  | transaction call => exact h.transaction hok hrun
  | respond url => exact h.respond hok hrun

end LinkInv

/-- What one step keeps. -/
theorem linkInv_step {userId : String} {s s' : LinkState κ} {a : LinkAction κ}
    (hstep : s.step urls userId a = some s') (hsafe : NoOpenReplaced urls s a)
    (h : LinkInv urls s) : LinkInv urls s' := by
  cases a with
  | start caller =>
    simp only [LinkState.step] at hstep
    split at hstep
    · cases hstep
      refine h.move h.cache fun phase hphase => ?_
      cases hphase
      trivial
    · cases hstep
  | run =>
    simp only [LinkState.step] at hstep
    split at hstep
    · cases hstep
    case h_2 phase hcall => exact h.runCall hstep hcall hsafe
  | create sessionId clientReferenceId id =>
    simp only [LinkState.step] at hstep
    split at hstep
    case h_1 result hcall hnew =>
      cases hstep
      let new : StripeSession :=
        ⟨sessionId, some .opened, result.stripeCustomerId.map fun id => ⟨id, false⟩, none⟩
      have hages : Ages s (s.setSession new) := ages_setSession fun old hold => by
        cases hnew.symm.trans hold
      have hreplace : Replaceable (s.setSession new) :=
        Replaceable.ages h (h.call (.create result) hcall) hages
      have hknown : (s.setSession new).stripe sessionId ≠ none := by
        simp [LinkState.setSession, new]
      refine h.ages ⟨hages.row, hages.known, hages.opened⟩
        (fun _ _ hsess => ids_setSession h.stripe new hsess) h.cache (fun phase hphase => ?_) rfl
      cases hphase
      exact ⟨hreplace, hknown, rfl⟩
    · cases hstep
  | fail =>
    cases hstep
    refine h.move h.cache fun phase hphase => ?_
    cases hphase
  | change sess =>
    simp only [LinkState.step] at hstep
    split at hstep
    · cases hstep
    case h_2 old hold =>
      split at hstep
      case isTrue hok =>
        cases hstep
        have hages : Ages s (s.setSession sess) := ages_setSession fun old' hold' => by
          cases hold.symm.trans hold'
          exact hok
        exact h.ages hages (fun _ _ hsess => ids_setSession h.stripe sess hsess) h.cache
          (fun phase hphase => PhaseOk.ages h hages (h.call phase hphase)) rfl
      · cases hstep
  | expireCache =>
    cases hstep
    exact h.move nofun h.call
  | invalidate =>
    cases hstep
    exact h.move nofun h.call
  | customerDeleted =>
    cases hstep
    have hrow := hsafe.2 rfl
    refine h.replace hrow nofun fun phase hphase => ?_
    exact PhaseOk.removed (t := { s with row := none }) hrow rfl rfl (h.call phase hphase)

/-! ## A second open link -/

omit [DecidableEq κ] in
theorem result_of_resolve {portalUrl : String} {existing : CheckoutSession κ}
    {sess : StripeSession} {result : Resolved κ}
    (h : resolveCheckoutSession portalUrl existing sess = .resolved result) :
    result.clientReferenceId = some existing.clientReferenceId := by
  unfold resolveCheckoutSession at h
  split at h
  · cases h
  · cases h
    rfl
  · split at h
    · cases h
    · split at h
      · cases h
        rfl
      · cases h
  · cases h

/-- Once the handler is about to create a session, it returns its URL if nothing fails. -/
private theorem not_oneOpenLink_create {userId : String} {s : LinkState κ} {result : Resolved κ}
    {id sessionId : String} (uuid : κ) (hcall : s.call = some (.create result))
    (hopen : IsOpen s id) (hreturned : urls.checkout id ∈ s.returned)
    (hnew : s.stripe sessionId = none)
    (hrow : ∀ call : CheckoutCall κ, call.result = result →
      ∃ row, call.transaction s.row = some row ∧ row.url = call.url) :
    ∃ t, run (LinkState.step urls userId) s [.create sessionId uuid uuid, .run, .run] = some t ∧
      ¬ OneOpenLink urls t := by
  obtain ⟨row, htransaction, hurl⟩ := hrow
    ⟨result, userId, uuid, uuid, sessionId, urls.checkout sessionId⟩ rfl
  simp only [run, LinkState.step, hcall, hnew, LinkState.create, LinkState.setSession,
    LinkState.runCall, htransaction]
  refine ⟨_, rfl, fun hone => ?_⟩
  obtain ⟨sess, hsess, hstatus⟩ := hopen
  have hne : id ≠ sessionId := by
    rintro rfl
    cases hnew.symm.trans hsess
  apply hne
  apply hone id sessionId
  · exact List.mem_cons_of_mem _ hreturned
  · exact hurl ▸ List.mem_cons_self
  · exact ⟨sess, (Function.update_of_ne hne _ _).trans hsess, hstatus⟩
  · exact ⟨_, Function.update_self .., rfl⟩

private theorem transaction_none {call : CheckoutCall κ} (h : call.result = ⟨none, none⟩) :
    ∃ row, call.transaction none = some row ∧ row.url = call.url := by
  refine ⟨call.values, ?_, rfl⟩
  simp [CheckoutCall.transaction, CheckoutCall.firstStatement, h]

private theorem transaction_some {call : CheckoutCall κ} {existing : CheckoutSession κ}
    (h : call.result.clientReferenceId = some existing.clientReferenceId) :
    ∃ row, call.transaction (some existing) = some row ∧ row.url = call.url := by
  refine ⟨call.set existing, ?_, rfl⟩
  simp [CheckoutCall.transaction, CheckoutCall.firstStatement, h]

/-- The handler goes by a cached session while the link of the row is open. -/
private theorem not_oneOpenLink_get {userId : String} {s : LinkState κ}
    {existing : CheckoutSession κ} {sess : StripeSession} {sessionId : String} (uuid : κ)
    (hcall : s.call = some (.get .handler existing)) (hcache : s.cache = some sess)
    (hmakes : MakesLink (resolveCheckoutSession urls.portal existing sess))
    (hrow : s.row = some existing) (hopen : IsOpen s existing.sessionId)
    (hreturned : urls.checkout existing.sessionId ∈ s.returned)
    (hnew : s.stripe sessionId = none) :
    ∃ bs t, run (LinkState.step urls userId) s bs = some t ∧ ¬ OneOpenLink urls t := by
  cases hresolve : resolveCheckoutSession urls.portal existing sess with
  | url url =>
    rw [hresolve] at hmakes
    exact hmakes.elim
  | invalidStatus =>
    rw [hresolve] at hmakes
    exact hmakes.elim
  | resolved result =>
    have hget : s.step urls userId .run = some { s with call := some (.create result) } := by
      simp only [LinkState.step, hcall, LinkState.runCall, hcache, LinkState.proceed, hresolve]
    obtain ⟨t, ht, hnot⟩ := not_oneOpenLink_create (s := { s with call := some (.create result) })
      uuid rfl hopen hreturned hnew fun call hresult => by
        rw [hrow]
        exact transaction_some (hresult ▸ result_of_resolve hresolve)
    exact ⟨_, t, run_cons.2 ⟨_, hget, ht⟩, hnot⟩
  | deleteRow =>
    have hget : s.step urls userId .run = some { s with call := some (.deleteRow existing) } := by
      simp only [LinkState.step, hcall, LinkState.runCall, hcache, LinkState.proceed, hresolve]
    have hdelete : LinkState.step urls userId { s with call := some (.deleteRow existing) } .run =
        some { s with row := none, call := some (.create ⟨none, none⟩) } := by
      simp only [LinkState.step, LinkState.runCall, hrow, Option.filter_some, ne_eq,
        not_true_eq_false, decide_false, Bool.false_eq_true, ↓reduceIte]
    obtain ⟨t, ht, hnot⟩ := not_oneOpenLink_create
      (s := { s with row := none, call := some (.create ⟨none, none⟩) }) uuid rfl hopen hreturned
      hnew fun call hresult => transaction_none hresult
    exact ⟨_, t, run_cons.2 ⟨_, hget, run_cons.2 ⟨_, hdelete, ht⟩⟩, hnot⟩

/-- The row is removed while its link is open. -/
private theorem not_oneOpenLink_customerDeleted {userId : String} {s : LinkState κ}
    {id sessionId : String} (uuid : κ) (hopen : IsOpen s id)
    (hreturned : urls.checkout id ∈ s.returned) (hnew : s.stripe sessionId = none) :
    ∃ bs t, run (LinkState.step urls userId) s bs = some t ∧ ¬ OneOpenLink urls t := by
  have hdeleted : run (LinkState.step urls userId) s
      [.fail, .customerDeleted, .start .handler, .run] =
        some { s with row := none, call := some (.create ⟨none, none⟩) } := by
    simp only [run, LinkState.step, LinkState.runCall]
  obtain ⟨t, ht, hnot⟩ := not_oneOpenLink_create
    (s := { s with row := none, call := some (.create ⟨none, none⟩) }) uuid rfl hopen hreturned
    hnew fun call hresult => transaction_none hresult
  exact ⟨_, t, run_append.2 ⟨_, hdeleted, ht⟩, hnot⟩

/-- At most one link is open all along every run in which no new link replaces an open one. Where
    it would replace one that has been returned, the run can go on to have two open links. -/
theorem always_oneOpenLink (urls : StripeUrls) (userId : String) (as : List (LinkAction κ)) :
    (Meets (LinkState.step urls userId) (NoOpenReplaced urls) LinkState.init as →
      Always (LinkState.step urls userId) (OneOpenLink urls) LinkState.init as) ∧
    ∀ s a, run (LinkState.step urls userId) LinkState.init as = some s →
      Meets (LinkState.step urls userId) (NoOpenReplaced urls) LinkState.init as →
      ¬ NoOpenReplaced urls s a →
      (∀ row, s.row = some row → urls.checkout row.sessionId ∈ s.returned) →
      ∀ (sessionId : String) (_ : κ), s.stripe sessionId = none →
        ∃ bs t, run (LinkState.step urls userId) LinkState.init (as ++ bs) = some t ∧
          ¬ OneOpenLink urls t := by
  constructor
  · intro hsafe
    exact always_of_invariant (fun s a s' hstep hsafe h => linkInv_step hstep hsafe h)
      (fun s h => oneOpenLink_of_linkInv h) hsafe (linkInv_init urls)
  · intro s a hs hsafe hnot hreturned sessionId uuid hnew
    have hinv : LinkInv urls s := run_invariant_of_meets
      (fun s a s' hstep hsafe h => linkInv_step hstep hsafe h) hs hsafe (linkInv_init urls)
    suffices hgo : ∃ bs t, run (LinkState.step urls userId) s bs = some t ∧
        ¬ OneOpenLink urls t by
      obtain ⟨bs, t, ht, hone⟩ := hgo
      exact ⟨bs, t, run_append.2 ⟨s, hs, ht⟩, hone⟩
    simp only [NoOpenReplaced, not_and_or, not_forall, not_not] at hnot
    cases hnot with
    | inl hget =>
      obtain ⟨-, existing, sess, hcall, hcache, -, hmakes, hopen⟩ := hget
      have hheld : Held urls s existing := hinv.call _ hcall
      have hrow := hheld.opened hopen
      exact not_oneOpenLink_get uuid hcall hcache hmakes hrow hopen (hreturned existing hrow) hnew
    | inr hdeleted =>
      obtain ⟨-, row, hrow, hopen⟩ := hdeleted
      exact not_oneOpenLink_customerDeleted uuid hopen (hreturned row hrow) hnew

end Links

/-- The URLs as Stripe forms them. -/
def stripeUrls : StripeUrls where
  checkout id := "checkout.stripe.com/c/pay/" ++ id
  portal := "billing.stripe.com/p/login"
  checkout_inj := (String.append_right_inj _).1
  portal_ne := by
    intro id heq
    have hlist := congrArg String.toList heq
    simp at hlist

/-- The first session expires and the handler replaces it. The cache is invalidated before the next
    call, which returns the new link again. -/
def renewExpired : List (LinkAction Nat) :=
  [.start .handler, .run, .create "cs_1" 1 2, .run, .run,
    .change ⟨"cs_1", some .expired, none, none⟩,
    .start .handler, .run, .run, .run, .run, .create "cs_2" 3 4, .run, .run, .invalidate,
    .start .handler, .run, .run, .run, .run, .run]

theorem always_oneOpenLink_renewExpired :
    (run (LinkState.step stripeUrls "user") .init renewExpired).map LinkState.returned =
        some (["cs_2", "cs_2", "cs_1"].map stripeUrls.checkout) ∧
      Always (LinkState.step stripeUrls "user") (OneOpenLink stripeUrls)
        (LinkState.init : LinkState Nat) renewExpired :=
  ⟨rfl, (always_oneOpenLink stripeUrls "user" renewExpired).1 (by decide +kernel)⟩

/-- The first session expires and the handler replaces it, with the expired session now cached. The
    next call takes the cached session for that of the row, and makes a third link. -/
theorem not_oneOpenLink : ∃ t,
    run (LinkState.step stripeUrls "user") (LinkState.init : LinkState Nat)
      [.start .handler, .run, .create "cs_1" 1 2, .run, .run,
        .change ⟨"cs_1", some .expired, none, none⟩,
        .start .handler, .run, .run, .run, .run, .create "cs_2" 3 4, .run, .run,
        .start .handler, .run, .run, .create "cs_3" 5 6, .run, .run] = some t ∧
      ¬ OneOpenLink stripeUrls t := by
  refine ⟨_, rfl, fun hone => ?_⟩
  have heq := hone "cs_2" "cs_3" (by decide) (by decide) ⟨_, rfl, rfl⟩ ⟨_, rfl, rfl⟩
  exact absurd heq (by decide)

end BlockFeed.Spec
