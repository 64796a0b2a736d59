import BlockFeed.Native.CheckoutService
import BlockFeed.Spec.CheckoutOwnership

/-!
# Users of the checkout do not see each other

All users share Stripe, the table `checkout_session` and the cache, and their calls run at the same
time. What one user sees of them is a `LinkState` (`linkView`), and only the actions of this user
change it: each user's part of a run is a run of `LinkState` (`checkout_isolated`).

The statements find rows by customer, by primary key or by `clientReferenceId`. They find only the
user's own, because those are UUIDs that calls of the user have drawn (`OwnInv`).
-/

namespace BlockFeed.Spec

open BlockFeed.Native Transition

variable {κ : Type} {urls : StripeUrls}

/-- What a user sees. -/
def linkView (s : CheckoutService κ) (me : String) : LinkState κ where
  stripe sessionId :=
    ((s.stripe sessionId).filter fun session => session.userId = me).map UserSession.sess
  row := s.table.findFirst me
  cache := s.cache (sessionKey me)
  call := s.call me
  returned := s.returned me

/-- The actions of a user. -/
def actionsOf (me : String) (as : List (String × LinkAction κ)) : List (LinkAction κ) :=
  as.filterMap fun a => if a.1 = me then some a.2 else none

/-! ### What a change is for the users -/

section Frame

variable {s : CheckoutService κ} {me userId : String}

@[simp] theorem linkView_setCall_self (call : Option (CheckoutPhase κ)) :
    linkView (s.setCall me call) me = { linkView s me with call := call } := by
  simp [linkView, CheckoutService.setCall]

@[simp] theorem linkView_setCache_self (cached : Option StripeSession) :
    linkView (s.setCache me cached) me = { linkView s me with cache := cached } := by
  simp [linkView, CheckoutService.setCache]

@[simp] theorem linkView_setSession_self (sess : StripeSession) :
    linkView (s.setSession me sess) me = (linkView s me).setSession sess := by
  simp only [linkView, CheckoutService.setSession, LinkState.setSession, LinkState.mk.injEq,
    and_true]
  funext sessionId
  by_cases hid : sessionId = sess.id
  · simp [hid]
  · simp [Function.update_of_ne hid]

theorem stripe_linkView {sessionId : String} {sess : StripeSession} :
    (linkView s me).stripe sessionId = some sess ↔ s.stripe sessionId = some ⟨me, sess⟩ := by
  simp only [linkView, Option.map_eq_some_iff, Option.filter_eq_some_iff, decide_eq_true_eq]
  constructor
  · rintro ⟨⟨owner, sess⟩, ⟨hsession, rfl⟩, rfl⟩
    exact hsession
  · intro hsession
    exact ⟨_, ⟨hsession, rfl⟩, rfl⟩

variable (hne : me ≠ userId)

include hne

@[simp] theorem linkView_setCall_of_ne (call : Option (CheckoutPhase κ)) :
    linkView (s.setCall userId call) me = linkView s me := by
  simp [linkView, CheckoutService.setCall, Function.update_of_ne hne]

@[simp] theorem linkView_setCache_of_ne (cached : Option StripeSession) :
    linkView (s.setCache userId cached) me = linkView s me := by
  have hkey : sessionKey me ≠ sessionKey userId := fun h => hne (prefixWithNamespace_inj.1 h)
  simp [linkView, CheckoutService.setCache, Function.update_of_ne hkey]

/-- A session that was not there, or was the other user's. -/
theorem linkView_setSession_of_ne {sess : StripeSession}
    (hother : ∀ old, s.stripe sess.id = some old → old.userId = userId) :
    linkView (s.setSession userId sess) me = linkView s me := by
  simp only [linkView, CheckoutService.setSession, LinkState.mk.injEq, and_true]
  funext sessionId
  by_cases hid : sessionId = sess.id
  · subst hid
    cases hold : s.stripe sess.id with
    | none => simp [Ne.symm hne]
    | some old => simp [Option.filter_some, hother old hold, Ne.symm hne]
  · simp [Function.update_of_ne hid]

end Frame

/-! ### The UUIDs of the users -/

theorem flatMap_actionsOf_sublist (me : String) (as : List (String × LinkAction κ)) :
    ((actionsOf me as).flatMap drawn).Sublist (as.flatMap fun a => drawn a.2) := by
  induction as with
  | nil => exact .slnil
  | cons a as ih =>
    rw [List.flatMap_cons, actionsOf, List.filterMap_cons]
    by_cases hme : a.1 = me
    · rw [if_pos hme]
      exact (List.Sublist.refl _).append ih
    · rw [if_neg hme]
      exact ih.trans (List.sublist_append_right _ _)

theorem mem_flatMap_actionsOf {me : String} {as : List (String × LinkAction κ)} {uuid : κ} :
    uuid ∈ (actionsOf me as).flatMap drawn ↔ ∃ a ∈ as, a.1 = me ∧ uuid ∈ drawn a.2 := by
  simp only [List.mem_flatMap, actionsOf, List.mem_filterMap, Option.ite_none_right_eq_some,
    Option.some.injEq]
  constructor
  · rintro ⟨_, ⟨a, ha, hme, rfl⟩, huuid⟩
    exact ⟨a, ha, hme, huuid⟩
  · rintro ⟨a, ha, hme, huuid⟩
    exact ⟨a.2, ⟨a, ha, hme, rfl⟩, huuid⟩

/-- A UUID is drawn once, so for one user. -/
theorem user_of_drawn {as : List (String × LinkAction κ)} {me you : String} {uuid : κ}
    (huuids : (as.flatMap fun a => drawn a.2).Nodup)
    (hme : uuid ∈ (actionsOf me as).flatMap drawn)
    (hyou : uuid ∈ (actionsOf you as).flatMap drawn) : me = you := by
  obtain ⟨a, ha, rfl, hmine⟩ := mem_flatMap_actionsOf.1 hme
  obtain ⟨b, hb, rfl, hyours⟩ := mem_flatMap_actionsOf.1 hyou
  have hapart := (List.nodup_flatMap.1 huuids).2
  have hall : ∀ ⦃a⦄, a ∈ as → ∀ ⦃b⦄, b ∈ as → uuid ∈ drawn a.2 → uuid ∈ drawn b.2 → a.1 = b.1 :=
    List.Pairwise.forall_of_forall_of_flip (fun _ _ _ _ => rfl)
      (hapart.imp fun hdisjoint h h' => absurd h' (hdisjoint h))
      (hapart.imp fun hdisjoint h h' => absurd h (hdisjoint h'))
  exact hall ha hb hmine hyours

/-! ### The steps -/

section Steps

variable [DecidableEq κ]

/-- A transaction that finds rows of its user only, and whose UUIDs are new, does to the row of the
    user what it does when there is no other user. -/
theorem write_findFirst {table : CheckoutSessions κ} {call : CheckoutCall κ}
    (hreference : ∀ row ∈ table.rows,
      some row.clientReferenceId = call.result.clientReferenceId → row.customerId = call.userId)
    (hid : call.id ∉ table.rows.map CheckoutSession.id)
    (hnew : call.clientReferenceId ∉ table.rows.map CheckoutSession.clientReferenceId) :
    ∃ table', call.write table = some table' ∧
      table'.findFirst call.userId = call.transaction (table.findFirst call.userId) ∧
      ∀ you, you ≠ call.userId → table'.findFirst you = table.findFirst you := by
  unfold CheckoutCall.write CheckoutCall.transaction
  cases hfirst : call.firstStatement with
  | selectForUpdate clientReferenceId =>
    cases CheckoutState.eq_of_firstStatement hfirst
    have hreferences : (table.rows.map fun row =>
        (if some row.clientReferenceId = call.result.clientReferenceId then call.set row
          else row).clientReferenceId).Nodup := by
      refine List.Nodup.map_on (fun x hx y hy heq => ?_) (.of_map _ table.ids)
      have hfresh : ∀ row ∈ table.rows, call.clientReferenceId ≠ row.clientReferenceId :=
        fun row hrow h => hnew (List.mem_map.2 ⟨row, hrow, h.symm⟩)
      have hsame : x.clientReferenceId = y.clientReferenceId := by
        split at heq
        · next hx' =>
          split at heq
          · next hy' => exact Option.some.inj (hx'.trans hy'.symm)
          · exact absurd heq (hfresh y hy)
        · split at heq
          · exact absurd heq.symm (hfresh x hx)
          · exact heq
      exact List.inj_on_of_nodup_map table.references hx hy hsame
    have hset : ∀ row ∈ table.rows,
        decide (some row.clientReferenceId = call.result.clientReferenceId) = true →
          (call.set row).id = row.id ∧ (call.set row).customerId = row.customerId :=
      fun row hrow hp => ⟨rfl, (hreference row hrow (of_decide_eq_true hp)).symm⟩
    obtain ⟨table', hupdate, -, hfind⟩ := CheckoutSessions.exists_update hset
      (by simpa only [decide_eq_true_eq] using hreferences)
    refine ⟨table', hupdate, ?_, fun you hyou => ?_⟩
    · simp only [hfind, decide_eq_true_eq]
    · rw [hfind]
      cases hrow : table.findFirst you with
      | none => rfl
      | some row =>
        obtain ⟨hmem, hcustomer⟩ := CheckoutSessions.findFirst_eq_some.1 hrow
        have hnot : some row.clientReferenceId ≠ call.result.clientReferenceId :=
          fun h => hyou (hcustomer.symm.trans (hreference row hmem h))
        simp [hnot]
  | insertIgnore =>
    refine ⟨_, rfl, ?_, fun you hyou => ?_⟩
    · rw [CheckoutSessions.findFirst_insertIgnore hid hnew]
      exact if_pos rfl
    · rw [CheckoutSessions.findFirst_insertIgnore hid hnew]
      exact if_neg (Ne.symm hyou)

/-- A step of the user `me` is one for `me` alone. -/
structure OwnStep (s s' : CheckoutService κ) (me : String)
    (step : LinkState κ → Option (LinkState κ)) : Prop where
  own : step (linkView s me) = some (linkView s' me)
  others : ∀ you, you ≠ me → linkView s' you = linkView s you

variable {as : List (String × LinkAction κ)} {s s' : CheckoutService κ} {me : String}

omit [DecidableEq κ] in
/-- A step that only moves the call on. -/
theorem ownStep_setCall {step : LinkState κ → Option (LinkState κ)}
    {call : Option (CheckoutPhase κ)}
    (h : step (linkView s me) = some { linkView s me with call := call }) :
    OwnStep s (s.setCall me call) me step where
  own := h.trans (congrArg some (linkView_setCall_self call).symm)
  others _ hyou := linkView_setCall_of_ne hyou call

omit [DecidableEq κ] in
/-- A step that only changes the cache. -/
theorem ownStep_setCache {step : LinkState κ → Option (LinkState κ)}
    {cached : Option StripeSession}
    (h : step (linkView s me) = some { linkView s me with cache := cached }) :
    OwnStep s (s.setCache me cached) me step where
  own := h.trans (congrArg some (linkView_setCache_self cached).symm)
  others _ hyou := linkView_setCache_of_ne hyou cached

variable (hown : ∀ you, OwnInv urls you (actionsOf you as) (linkView s you))
  (huuids : (as.flatMap fun a => drawn a.2).Nodup)

include hown huuids

omit [DecidableEq κ] in
/-- Whose UUIDs a row has, its customer is. -/
theorem customer_of_drawn {row : CheckoutSession κ} (hrow : row ∈ s.table.rows)
    (hdrawn : row.id ∈ (actionsOf me as).flatMap drawn ∨
      row.clientReferenceId ∈ (actionsOf me as).flatMap drawn) : row.customerId = me := by
  have hfound : (linkView s row.customerId).row = some row :=
    CheckoutSessions.findFirst_eq_some.2 ⟨hrow, rfl⟩
  have hrowOwn := (hown row.customerId).row row hfound
  cases hdrawn with
  | inl hid => exact user_of_drawn huuids hrowOwn.id hid
  | inr hreference => exact user_of_drawn huuids hrowOwn.reference hreference

theorem ownStep_transaction {call : CheckoutCall κ} (hcall : s.call me = some (.transaction call)) :
    OwnStep s (s.transaction me call) me fun l => l.runCall urls (.transaction call) := by
  have hphase : RowOwn urls me ((actionsOf me as).flatMap drawn) (linkView s me) call.values ∧
      ∀ r, call.result.clientReferenceId = some r → r ∈ (actionsOf me as).flatMap drawn :=
    (hown me).call _ hcall
  obtain ⟨hvalues, hresult⟩ := hphase
  have huser : call.userId = me := hvalues.customer
  -- the row of `me` does not have the new UUIDs, and no other row can
  have hnew : ∀ row ∈ s.table.rows, row.id ≠ call.id ∧
      row.clientReferenceId ≠ call.clientReferenceId := by
    intro row hrow
    by_contra hnot
    have hdrawn : row.id ∈ (actionsOf me as).flatMap drawn ∨
        row.clientReferenceId ∈ (actionsOf me as).flatMap drawn := by
      by_cases hid : row.id = call.id
      · exact .inl (hid ▸ hvalues.id)
      · have hreference : row.clientReferenceId = call.clientReferenceId := by
          by_contra hne
          exact hnot ⟨hid, hne⟩
        exact .inr (hreference ▸ hvalues.reference)
    have hmine : (linkView s me).row = some row :=
      CheckoutSessions.findFirst_eq_some.2 ⟨hrow, customer_of_drawn hown huuids hrow hdrawn⟩
    exact hnot ((hown me).new ((flatMap_actionsOf_sublist me as).nodup huuids) call row hcall hmine)
  have hreference : ∀ row ∈ s.table.rows,
      some row.clientReferenceId = call.result.clientReferenceId →
        row.customerId = call.userId := by
    intro row hrow hreference
    rw [huser]
    exact customer_of_drawn hown huuids hrow (.inr (hresult _ hreference.symm))
  have hid : call.id ∉ s.table.rows.map CheckoutSession.id := by
    intro hid
    obtain ⟨row, hrow, heq⟩ := List.mem_map.1 hid
    exact (hnew row hrow).1 heq
  have hunused : call.clientReferenceId ∉
      s.table.rows.map CheckoutSession.clientReferenceId := by
    intro hused
    obtain ⟨row, hrow, heq⟩ := List.mem_map.1 hused
    exact (hnew row hrow).2 heq
  obtain ⟨table', hwrite, hfind, hothers⟩ := write_findFirst hreference hid hunused
  rw [huser] at hfind hothers
  have hrow : (linkView s me).row = s.table.findFirst me := rfl
  unfold CheckoutService.transaction
  simp only [hwrite, huser]
  cases hres : table'.findFirst me with
  | none =>
    exact ownStep_setCall (by simp only [LinkState.runCall, hrow, ← hfind, hres])
  | some row =>
    refine ⟨?_, fun you hyou => ?_⟩
    · simp only [LinkState.runCall, hrow, ← hfind, hres, linkView_setCall_self]
      simp [linkView, hres]
    · rw [linkView_setCall_of_ne hyou]
      simp [linkView, hothers you hyou]

theorem ownStep_runCall {phase : CheckoutPhase κ} (hcall : s.call me = some phase)
    (hrun : s.runCall urls me phase = some s') :
    OwnStep s s' me fun l => l.runCall urls phase := by
  cases phase with
  | findFirst caller =>
    have hrow : (linkView s me).row = s.table.findFirst me := rfl
    simp only [CheckoutService.runCall] at hrun
    split at hrun
    · next existing hfound =>
      cases hrun
      exact ownStep_setCall (by simp only [LinkState.runCall, hrow, hfound])
    · next hfound =>
      cases hrun
      exact ownStep_setCall (by simp only [LinkState.runCall, hrow, hfound])
    · next hfound =>
      cases hrun
      exact ownStep_setCall (by simp only [LinkState.runCall, hrow, hfound])
  | get caller existing =>
    have hcache : (linkView s me).cache = s.cache (sessionKey me) := rfl
    simp only [CheckoutService.runCall] at hrun
    split at hrun
    · next sess hfound =>
      cases hrun
      exact ownStep_setCall (by simp only [LinkState.runCall, hcache, hfound])
    · next hfound =>
      cases hrun
      exact ownStep_setCall (by simp only [LinkState.runCall, hcache, hfound])
  | retrieve caller existing =>
    -- the session is one that Stripe has for this user
    have hexisting : RowOwn urls me ((actionsOf me as).flatMap drawn) (linkView s me) existing :=
      (hown me).call _ hcall
    obtain ⟨sess, hsess⟩ := Option.ne_none_iff_exists'.1 hexisting.session
    simp only [CheckoutService.runCall, stripe_linkView.1 hsess] at hrun
    cases hrun
    exact ownStep_setCall (by simp only [LinkState.runCall, hsess])
  | set caller existing sess =>
    cases hrun
    refine ⟨?_, fun you hyou => ?_⟩
    · simp only [LinkState.runCall, linkView_setCall_self, linkView_setCache_self]
    · rw [linkView_setCall_of_ne hyou, linkView_setCache_of_ne hyou]
  | deleteRow existing =>
    have hexisting : RowOwn urls me ((actionsOf me as).flatMap drawn) (linkView s me) existing :=
      (hown me).call _ hcall
    cases hrun
    refine ⟨?_, fun you hyou => ?_⟩
    · simp [LinkState.runCall, linkView, CheckoutService.setCall,
        CheckoutSessions.findFirst_delete]
    · rw [linkView_setCall_of_ne hyou]
      have hkept : (s.table.delete fun row => row.id = existing.id).findFirst you =
          s.table.findFirst you := by
        apply CheckoutSessions.findFirst_delete_of_forall
        intro row hrow hcustomer
        have hne : row.id ≠ existing.id := fun hid => hyou
          (hcustomer.symm.trans (customer_of_drawn hown huuids hrow (.inl (hid ▸ hexisting.id))))
        simpa using hne
      simp [linkView, hkept]
  | create result => cases hrun
  | transaction call =>
    cases hrun
    exact ownStep_transaction hown huuids hcall
  | respond url =>
    cases hrun
    refine ⟨?_, fun you hyou => ?_⟩
    · simp [LinkState.runCall, linkView, CheckoutService.setCall]
    · rw [linkView_setCall_of_ne hyou]
      simp [linkView, Function.update_of_ne hyou]

theorem ownStep_step {a : LinkAction κ} (hstep : s.step urls (me, a) = some s') :
    OwnStep s s' me fun l => l.step urls me a := by
  have hcallView : (linkView s me).call = s.call me := rfl
  cases a with
  | start caller =>
    simp only [CheckoutService.step] at hstep
    split at hstep
    · next hcall =>
      cases hstep
      exact ownStep_setCall (by simp only [LinkState.step, hcallView, hcall])
    · cases hstep
  | run =>
    simp only [CheckoutService.step] at hstep
    split at hstep
    · cases hstep
    · next phase hcall =>
      have hphase := ownStep_runCall hown huuids hcall hstep
      refine ⟨?_, hphase.others⟩
      simp only [LinkState.step, hcallView, hcall]
      exact hphase.own
  | create sessionId clientReferenceId id =>
    simp only [CheckoutService.step] at hstep
    split at hstep
    · next result hcall hnone =>
      cases hstep
      have hnew : (linkView s me).stripe sessionId = none := by simp [linkView, hnone]
      refine ⟨?_, fun you hyou => ?_⟩
      · simp only [LinkState.step, hcallView, hcall, hnew, CheckoutService.create,
          linkView_setCall_self, linkView_setSession_self, LinkState.create]
      · rw [CheckoutService.create, linkView_setCall_of_ne hyou,
          linkView_setSession_of_ne hyou (by simp [hnone])]
    · cases hstep
  | fail =>
    cases hstep
    exact ownStep_setCall rfl
  | change sess =>
    simp only [CheckoutService.step] at hstep
    split at hstep
    · cases hstep
    · next old hold =>
      split at hstep
      · next hok =>
        cases hstep
        obtain ⟨huser, hstatus⟩ := hok
        have hmine : (linkView s me).stripe sess.id = some old.sess := by
          rw [stripe_linkView, hold, ← huser]
        refine ⟨?_, fun you hyou => linkView_setSession_of_ne hyou ?_⟩
        · simp only [LinkState.step, hmine, if_pos hstatus, linkView_setSession_self]
        · intro other hother
          cases hold.symm.trans hother
          exact huser
      · cases hstep
  | expireCache =>
    cases hstep
    exact ownStep_setCache rfl
  | invalidate =>
    cases hstep
    exact ownStep_setCache rfl
  | customerDeleted =>
    cases hstep
    refine ⟨?_, fun you hyou => ?_⟩
    · have hgone : (s.table.delete fun row => row.customerId = me).findFirst me = none := by
        rw [CheckoutSessions.findFirst_delete, Option.filter_eq_none_iff]
        intro row hfound
        simp [(CheckoutSessions.findFirst_eq_some.1 hfound).2]
      simp [LinkState.step, linkView, hgone]
    · have hkept : (s.table.delete fun row => row.customerId = me).findFirst you =
          s.table.findFirst you := by
        apply CheckoutSessions.findFirst_delete_of_forall
        intro row hrow hcustomer
        simp [hcustomer, hyou]
      simp [linkView, hkept]

omit hown huuids in
/-- At the end of a run every user sees what the actions of the user alone lead to. -/
theorem run_linkView (hrun : run (CheckoutService.step urls) .init as = some s)
    (huuids : (as.flatMap fun a => drawn a.2).Nodup) (me : String) :
    run (LinkState.step urls me) .init (actionsOf me as) = some (linkView s me) := by
  refine run_invariant_history (P := fun as s => (as.flatMap fun a => drawn a.2).Nodup →
    ∀ me, run (LinkState.step urls me) .init (actionsOf me as) = some (linkView s me))
    (fun as s a s' hstep ih huuids me => ?_) hrun (fun _ _ => rfl) huuids me
  obtain ⟨user, action⟩ := a
  have hsofar : (as.flatMap fun a => drawn a.2).Nodup := by
    rw [List.flatMap_append] at huuids
    exact (List.nodup_append.1 huuids).1
  have hmoved := ownStep_step (fun you => ownInv_run (ih hsofar you)) hsofar hstep
  rw [actionsOf, List.filterMap_append]
  by_cases hme : user = me
  · subst hme
    simp only [List.filterMap_cons, List.filterMap_nil, if_true]
    exact run_concat.2 ⟨_, ih hsofar user, hmoved.own⟩
  · simp only [List.filterMap_cons, List.filterMap_nil, if_neg hme, List.append_nil]
    rw [hmoved.others me (Ne.symm hme)]
    exact ih hsofar me

omit hown huuids in
/-- Whatever the calls of all users do at the same time, a user sees what the actions of the user
    alone lead to, and the handler returns to the user the URL of the portal and those of the user's
    own sessions. -/
theorem checkout_isolated (hrun : run (CheckoutService.step urls) .init as = some s)
    (huuids : (as.flatMap fun a => drawn a.2).Nodup) (me : String) :
    run (LinkState.step urls me) .init (actionsOf me as) = some (linkView s me) ∧
      ∀ url ∈ s.returned me, url = urls.portal ∨
        ∃ sessionId sess, s.stripe sessionId = some ⟨me, sess⟩ ∧ url = urls.checkout sessionId := by
  have hview := run_linkView hrun huuids me
  refine ⟨hview, fun url hurl => ?_⟩
  apply Or.imp_right ?_ ((ownInv_run hview).returned url hurl)
  rintro ⟨sessionId, hknown, hcheckout⟩
  obtain ⟨sess, hsess⟩ := Option.ne_none_iff_exists'.1 hknown
  exact ⟨sessionId, sess, stripe_linkView.1 hsess, hcheckout⟩

end Steps

/-- Two users check out for the first time, a step of each in turn. -/
def twoCheckouts : List (String × LinkAction Nat) :=
  [("u", .start .handler), ("v", .start .handler), ("u", .run), ("v", .run),
    ("v", .create "cs_1" 1 2), ("u", .create "cs_2" 3 4), ("v", .run), ("u", .run), ("v", .run),
    ("u", .run)]

theorem checkout_isolated_twoCheckouts : ∃ s : CheckoutService Nat,
    run (CheckoutService.step stripeUrls) .init twoCheckouts = some s ∧
      s.returned "u" = [stripeUrls.checkout "cs_2"] ∧
      s.returned "v" = [stripeUrls.checkout "cs_1"] ∧
      run (LinkState.step stripeUrls "u") .init (actionsOf "u" twoCheckouts) =
        some (linkView s "u") :=
  ⟨_, rfl, rfl, rfl, (checkout_isolated rfl (by decide) "u").1⟩

end BlockFeed.Spec
