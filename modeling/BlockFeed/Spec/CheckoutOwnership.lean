import BlockFeed.Spec.CheckoutLinks

/-!
# What the checkout has of a user

In every order of steps the row of a user, and a row that a call has read, has a session that Stripe
has, the URL of that session, and UUIDs that a call of the user has drawn. The handler returns URLs
of such sessions, or that of the customer portal.
-/

namespace BlockFeed.Spec

open BlockFeed.Native Transition

variable {κ : Type} {urls : StripeUrls} {userId : String} {s s' : LinkState κ}

/-- The UUIDs that an action draws. -/
def drawn : LinkAction κ → List κ
  | .create _ clientReferenceId id => [clientReferenceId, id]
  | _ => []

/-- A row of the user. -/
structure RowOwn (urls : StripeUrls) (userId : String) (uuids : List κ) (s : LinkState κ)
    (row : CheckoutSession κ) : Prop where
  customer : row.customerId = userId
  id : row.id ∈ uuids
  reference : row.clientReferenceId ∈ uuids
  session : s.stripe row.sessionId ≠ none
  url : row.url = urls.checkout row.sessionId

/-- A URL that the handler returns to the user. -/
def UrlOwn (urls : StripeUrls) (s : LinkState κ) (url : String) : Prop :=
  url = urls.portal ∨ ∃ sessionId, s.stripe sessionId ≠ none ∧ url = urls.checkout sessionId

/-- The row that a call goes on with is one of the user, the new one included. -/
def PhaseOwn (urls : StripeUrls) (userId : String) (uuids : List κ) (s : LinkState κ) :
    CheckoutPhase κ → Prop
  | .findFirst _ => True
  | .get _ existing => RowOwn urls userId uuids s existing
  | .retrieve _ existing => RowOwn urls userId uuids s existing
  | .set _ existing _ => RowOwn urls userId uuids s existing
  | .deleteRow existing => RowOwn urls userId uuids s existing
  | .create result => ∀ r, result.clientReferenceId = some r → r ∈ uuids
  | .transaction call =>
    RowOwn urls userId uuids s call.values ∧ ∀ r, call.result.clientReferenceId = some r → r ∈ uuids
  | .respond url => UrlOwn urls s url

/-- What every order of steps keeps. -/
structure OwnInv (urls : StripeUrls) (userId : String) (as : List (LinkAction κ))
    (s : LinkState κ) : Prop where
  row : ∀ row, s.row = some row → RowOwn urls userId (as.flatMap drawn) s row
  call : ∀ phase, s.call = some phase → PhaseOwn urls userId (as.flatMap drawn) s phase
  /-- the UUIDs of a call are not in the row yet -/
  new : (as.flatMap drawn).Nodup → ∀ call row, s.call = some (.transaction call) →
    s.row = some row → row.id ≠ call.id ∧ row.clientReferenceId ≠ call.clientReferenceId
  returned : ∀ url ∈ s.returned, UrlOwn urls s url

theorem ownInv_init : OwnInv urls userId [] (LinkState.init : LinkState κ) where
  row := by simp [LinkState.init]
  call := by simp [LinkState.init]
  new := by simp [LinkState.init]
  returned := by simp [LinkState.init]

/-! ### Steps that leave the rows alone -/

section Keep

variable {uuids uuids' : List κ} (hsub : uuids ⊆ uuids')
  (hstripe : ∀ sessionId, s.stripe sessionId ≠ none → s'.stripe sessionId ≠ none)

include hstripe

theorem UrlOwn.keep {url : String} (h : UrlOwn urls s url) : UrlOwn urls s' url :=
  h.imp_right fun ⟨sessionId, hknown, hurl⟩ => ⟨sessionId, hstripe _ hknown, hurl⟩

include hsub

theorem RowOwn.keep {row : CheckoutSession κ} (h : RowOwn urls userId uuids s row) :
    RowOwn urls userId uuids' s' row :=
  ⟨h.customer, hsub h.id, hsub h.reference, hstripe _ h.session, h.url⟩

theorem PhaseOwn.keep {phase : CheckoutPhase κ} (h : PhaseOwn urls userId uuids s phase) :
    PhaseOwn urls userId uuids' s' phase := by
  cases phase with
  | findFirst caller => trivial
  | create result => exact fun r hr => hsub (h r hr)
  | transaction call => exact ⟨RowOwn.keep hsub hstripe h.1, fun r hr => hsub (h.2 r hr)⟩
  | respond url => exact UrlOwn.keep hstripe h
  | _ => exact RowOwn.keep hsub hstripe h

end Keep

theorem drawn_subset (as : List (LinkAction κ)) (a : LinkAction κ) :
    as.flatMap drawn ⊆ (as ++ [a]).flatMap drawn := by
  rw [List.flatMap_append]
  exact List.subset_append_left _ _

theorem nodup_drawn {as : List (LinkAction κ)} {a : LinkAction κ}
    (h : ((as ++ [a]).flatMap drawn).Nodup) : (as.flatMap drawn).Nodup := by
  rw [List.flatMap_append] at h
  exact (List.nodup_append.1 h).1

/-- A step that at most removes the row and changes sessions that Stripe has. -/
theorem OwnInv.move {as : List (LinkAction κ)} (h : OwnInv urls userId as s) (a : LinkAction κ)
    (hstripe : ∀ sessionId, s.stripe sessionId ≠ none → s'.stripe sessionId ≠ none)
    (hrow : ∀ r, s'.row = some r → s.row = some r)
    (hcall : ∀ phase, s'.call = some phase → PhaseOwn urls userId (as.flatMap drawn) s phase)
    (hnew : ∀ call, s'.call = some (.transaction call) → s.call = some (.transaction call))
    (hreturned : ∀ url ∈ s'.returned, UrlOwn urls s url) : OwnInv urls userId (as ++ [a]) s' where
  row r hr := (h.row r (hrow r hr)).keep (drawn_subset as a) hstripe
  call phase hphase := (hcall phase hphase).keep (drawn_subset as a) hstripe
  new hnodup call r hphase hr := h.new (nodup_drawn hnodup) call r (hnew call hphase) (hrow r hr)
  returned url hurl := (hreturned url hurl).keep hstripe

/-! ### The steps of a call -/

/-- What the handler goes on with is of the row it has read. -/
theorem phaseOwn_proceed {uuids : List κ} {existing : CheckoutSession κ} {sess : StripeSession}
    {caller : CheckoutCaller} (h : RowOwn urls userId uuids s existing) :
    ∀ phase, LinkState.proceed urls existing sess caller = some phase →
      PhaseOwn urls userId uuids s phase ∧ ∀ call, phase ≠ .transaction call := by
  intro phase hphase
  cases caller with
  | middleware => cases hphase
  | handler =>
    simp only [LinkState.proceed] at hphase
    split at hphase
    · next url hresolve =>
      cases hphase
      refine ⟨?_, by simp⟩
      cases url_of_resolve hresolve with
      | inl hurl => exact .inr ⟨existing.sessionId, h.session, hurl.trans h.url⟩
      | inr hurl => exact .inl hurl
    · cases hphase
      exact ⟨h, by simp⟩
    · next result hresolve =>
      cases hphase
      refine ⟨fun r hr => ?_, by simp⟩
      rw [result_of_resolve hresolve, Option.some.injEq] at hr
      exact hr ▸ h.reference
    · cases hphase

variable [DecidableEq κ]

/-- The row that a transaction leaves. -/
theorem rowOwn_transaction {uuids : List κ} {call : CheckoutCall κ} {row' : CheckoutSession κ}
    (hrow : ∀ r, s.row = some r → RowOwn urls userId uuids s r)
    (hvalues : RowOwn urls userId uuids s call.values) (h : call.transaction s.row = some row') :
    RowOwn urls userId uuids s row' := by
  unfold CheckoutCall.transaction at h
  split at h
  · obtain ⟨r, hr, rfl⟩ := Option.map_eq_some_iff.1 h
    split
    · exact ⟨hvalues.customer, (hrow r hr).id, hvalues.reference, hvalues.session, hvalues.url⟩
    · exact hrow r hr
  · cases hs : s.row with
    | none =>
      rw [hs] at h
      cases h
      exact hvalues
    | some r =>
      rw [hs] at h
      cases h
      exact hrow r hs

theorem OwnInv.runCall {as : List (LinkAction κ)} {phase : CheckoutPhase κ}
    (h : OwnInv urls userId as s) (hcall : s.call = some phase)
    (hrun : s.runCall urls phase = some s') : OwnInv urls userId (as ++ [.run]) s' := by
  have hphase := h.call phase hcall
  -- no step but the transaction writes to the row
  have hmove : ∀ (cache : Option StripeSession) (call : Option (CheckoutPhase κ)),
      (∀ next, call = some next → PhaseOwn urls userId (as.flatMap drawn) s next ∧
        ∀ c, next ≠ .transaction c) →
      OwnInv urls userId (as ++ [.run]) { s with cache := cache, call := call } := by
    intro cache call hnext
    refine h.move .run (fun _ hknown => hknown) (fun _ hr => hr) (fun next hn => (hnext next hn).1)
      (fun c hc => absurd rfl ((hnext _ hc).2 c)) h.returned
  cases phase with
  | findFirst caller =>
    simp only [LinkState.runCall] at hrun
    split at hrun
    · next existing hrow =>
      cases hrun
      exact hmove _ _ fun _ hn => by cases hn; exact ⟨h.row _ hrow, by simp⟩
    · cases hrun
      exact hmove _ _ fun _ hn => by cases hn; exact ⟨by simp [PhaseOwn], by simp⟩
    · cases hrun
      exact hmove _ _ fun _ hn => by cases hn
  | get caller existing =>
    simp only [LinkState.runCall] at hrun
    split at hrun
    · cases hrun
      exact hmove _ _ (phaseOwn_proceed hphase)
    · cases hrun
      exact hmove _ _ fun _ hn => by cases hn; exact ⟨hphase, by simp⟩
  | retrieve caller existing =>
    simp only [LinkState.runCall] at hrun
    split at hrun
    · cases hrun
      exact hmove _ _ fun _ hn => by cases hn; exact ⟨hphase, by simp⟩
    · cases hrun
      exact hmove _ _ fun _ hn => by cases hn
  | set caller existing sess =>
    cases hrun
    exact hmove _ _ (phaseOwn_proceed hphase)
  | deleteRow existing =>
    cases hrun
    refine h.move .run (fun _ hknown => hknown) (fun r hr => (Option.filter_eq_some_iff.1 hr).1)
      (fun _ hn => ?_) (fun _ hn => by cases hn) h.returned
    cases hn
    simp [PhaseOwn]
  | create result => cases hrun
  | transaction call =>
    simp only [LinkState.runCall] at hrun
    split at hrun
    · next row htransaction =>
      cases hrun
      have hown := rowOwn_transaction h.row hphase.1 htransaction
      have hurl : UrlOwn urls s row.url := .inr ⟨row.sessionId, hown.session, hown.url⟩
      refine ⟨fun r hr => ?_, fun _ hn => ?_, fun _ _ _ hn => (by cases hn), h.returned⟩
      · cases hr
        refine RowOwn.keep (drawn_subset as .run) ?_ hown
        exact fun _ hknown => hknown
      · cases hn
        exact hurl
    · cases hrun
      exact hmove _ _ fun _ hn => by cases hn
  | respond url =>
    cases hrun
    refine h.move .run (fun _ hknown => hknown) (fun _ hr => hr) (fun _ hn => by cases hn)
      (fun _ hn => by cases hn) fun u hu => ?_
    cases List.mem_cons.1 hu with
    | inl heq => exact heq ▸ hphase
    | inr hu => exact h.returned u hu

/-! ### All steps -/

omit [DecidableEq κ] in
theorem stripe_setSession_ne_none {s : LinkState κ} (sess : StripeSession) {id : String}
    (h : s.stripe id ≠ none) : (s.setSession sess).stripe id ≠ none := by
  by_cases hid : id = sess.id
  · subst hid
    simp [LinkState.setSession]
  · simpa [LinkState.setSession, Function.update_of_ne hid] using h

omit [DecidableEq κ] in
theorem OwnInv.create {as : List (LinkAction κ)} {result : Resolved κ} {sessionId : String}
    {clientReferenceId id : κ} (h : OwnInv urls userId as s)
    (hcall : s.call = some (.create result)) :
    OwnInv urls userId (as ++ [.create sessionId clientReferenceId id])
      (s.create urls userId result sessionId clientReferenceId id) := by
  have hstripe : ∀ known, s.stripe known ≠ none →
      (s.create urls userId result sessionId clientReferenceId id).stripe known ≠ none :=
    fun known hknown => stripe_setSession_ne_none _ hknown
  have hsub := drawn_subset as (.create sessionId clientReferenceId id)
  refine ⟨fun r hr => (h.row r hr).keep hsub hstripe, fun phase hphase => ?_, ?_,
    fun url hurl => (h.returned url hurl).keep hstripe⟩
  · cases hphase
    refine ⟨⟨rfl, ?_, ?_, ?_, rfl⟩, fun r hr => hsub (h.call _ hcall r hr)⟩
    · simp [CheckoutCall.values, drawn]
    · simp [CheckoutCall.values, drawn]
    · simp [CheckoutCall.values, LinkState.create, LinkState.setSession]
  · -- the row was there before the UUIDs were drawn
    intro hnodup call row hphase hrow
    cases hphase
    have hown := h.row row hrow
    rw [List.flatMap_append, List.nodup_append] at hnodup
    have hapart := hnodup.2.2
    exact ⟨hapart _ hown.id _ (by simp [drawn]), hapart _ hown.reference _ (by simp [drawn])⟩

/-- Every step keeps the invariant. -/
theorem ownInv_step {as : List (LinkAction κ)} {a : LinkAction κ}
    (hstep : s.step urls userId a = some s') (h : OwnInv urls userId as s) :
    OwnInv urls userId (as ++ [a]) s' := by
  cases a with
  | start caller =>
    simp only [LinkState.step] at hstep
    split at hstep
    · cases hstep
      exact h.move _ (fun _ hknown => hknown) (fun _ hr => hr) (fun _ hn => by cases hn; trivial)
        (fun _ hn => by cases hn) h.returned
    · cases hstep
  | run =>
    simp only [LinkState.step] at hstep
    split at hstep
    · cases hstep
    · next phase hcall => exact h.runCall hcall hstep
  | create sessionId clientReferenceId id =>
    simp only [LinkState.step] at hstep
    split at hstep
    · next result hcall hnone =>
      cases hstep
      exact h.create hcall
    · cases hstep
  | fail =>
    cases hstep
    exact h.move _ (fun _ hknown => hknown) (fun _ hr => hr) (fun _ hn => by cases hn)
      (fun _ hn => by cases hn) h.returned
  | change sess =>
    simp only [LinkState.step] at hstep
    split at hstep
    · cases hstep
    · split at hstep
      · cases hstep
        exact h.move _ (fun _ hknown => stripe_setSession_ne_none sess hknown) (fun _ hr => hr)
          h.call (fun _ hn => hn) h.returned
      · cases hstep
  | expireCache =>
    cases hstep
    exact h.move _ (fun _ hknown => hknown) (fun _ hr => hr) h.call (fun _ hn => hn) h.returned
  | invalidate =>
    cases hstep
    exact h.move _ (fun _ hknown => hknown) (fun _ hr => hr) h.call (fun _ hn => hn) h.returned
  | customerDeleted =>
    cases hstep
    exact h.move _ (fun _ hknown => hknown) (fun _ hr => by cases hr) h.call (fun _ hn => hn)
      h.returned

theorem ownInv_run {as : List (LinkAction κ)}
    (hrun : run (LinkState.step urls userId) .init as = some s) : OwnInv urls userId as s :=
  run_invariant_history (fun _ _ _ _ hstep h => ownInv_step hstep h) hrun ownInv_init

end BlockFeed.Spec
