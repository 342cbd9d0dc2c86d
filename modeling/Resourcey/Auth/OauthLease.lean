import Resourcey.Auth.OauthToken
import Resourcey.Logic.Trace

/-!
# Concurrent refreshes

Any number of processes that refresh one pair, at the level of single statements: each statement is
atomic and takes effect at once, and a process that has claimed the lease then calls the provider,
which takes as long as it takes.

The lease lets one process at a time present a token, but a process reads the pair before it claims,
and the store of another one clears the lease in between, so the token it presents may have been
used (`presented_twice`); `presented_once` is the run theorem for the runs in which a claim is won
on the pair that was read. And neither the store nor the deletion after an exchange looks at the
lease again, so the outcome of a process whose lease was taken over replaces the later holder's pair
(`late_failure_deletes`); `late_outcome_harmless` is the run theorem for the runs in which no holder
stores while an earlier one is still at it.

The ghosts are `presented`, the tokens the provider has seen, `issued`, those it may not issue
again, the number of claims, and the claim under which the pair was stored.
-/

namespace Resourcey

open OAuthTokenService

/-- Where a process is in `refresh`, between two statements. `claimed`, `exchanging` and `replied`
hold the lease, won as the claim of that number; a reply is absent when the provider raised. -/
inductive Refresher where
  | idle
  | read (current : StoredToken)
  | polling (polls : ℕ)
  | claimed (number : ℕ) (current : StoredToken)
  | exchanging (number : ℕ)
  | replied (number : ℕ) (reply : Option TokenResponse)
  deriving DecidableEq

/-- The claim of a process that has not stored or deleted anything under it yet. -/
def Refresher.unsettled : Refresher → Option ℕ
  | .claimed number _ => some number
  | .exchanging number => some number
  | .replied number _ => some number
  | _ => none

/-- The row of the pair, and the processes. -/
structure OAuthState (π : Type) where
  row : Option (OAuthToken π) := none
  refresher : π → Refresher := fun _ => .idle
  presented : List String := []
  issued : List String := []
  claims : ℕ := 0
  storedUnder : ℕ := 0

/-- What a process may do next. -/
inductive OAuthAction (π : Type) where
  | start (p : π) (now : ℤ)
  | claim (p : π) (now : ℤ)
  | poll (p : π) (now : ℤ)
  | present (p : π)
  | reply (p : π) (response : Option TokenResponse)
  | settle (p : π)
  | crash (p : π)

variable {π : Type} [DecidableEq π]

namespace OAuthState

def setRefresher (s : OAuthState π) (p : π) (x : Refresher) : OAuthState π :=
  { s with refresher := Function.update s.refresher p x }

/-- What the outcome of an exchange leaves of the row: `store` on success, `revoke` on failure. -/
def settledRow : Option TokenResponse → Option (OAuthToken π)
  | none => none
  | some response => some (store response)

end OAuthState

/-- The next state. Where `refresh` returns or raises, the process is idle again. -/
def oauthStep (settings : OAuthSettings) (s : OAuthState π) :
    OAuthAction π → Option (OAuthState π)
  | .start p now =>
    match s.refresher p, s.row with
    | .idle, none => some s
    | .idle, some row =>
      if fresh settings now (decryptRow row) then some s
      else s.setRefresher p (.read (decryptRow row))
    | _, _ => none
  | .claim p now =>
    match s.refresher p with
    | .read current =>
      match claim settings p now s.row with
      | (true, row) =>
        ({ s with row, claims := s.claims + 1 } : OAuthState π).setRefresher p
          (.claimed (s.claims + 1) current)
      | (false, _) => s.setRefresher p (.polling 0)
    | _ => none
  | .poll p now =>
    match s.refresher p with
    | .polling polls =>
      if refreshPollAttempts ≤ polls then s.setRefresher p .idle
      else
        match s.row with
        | none => s.setRefresher p .idle
        | some row =>
          if now < row.expiresAt then s.setRefresher p .idle
          else s.setRefresher p (.polling (polls + 1))
    | _ => none
  | .present p =>
    match s.refresher p with
    | .claimed number current =>
      ({ s with presented := current.refreshToken.toList ++ s.presented } :
        OAuthState π).setRefresher p (.exchanging number)
    | _ => none
  | .reply p response =>
    match s.refresher p with
    | .exchanging number =>
      ({ s with issued := (response.bind (·.refreshToken)).toList ++ s.issued } :
        OAuthState π).setRefresher p (.replied number response)
    | _ => none
  | .settle p =>
    match s.refresher p with
    | .replied number reply =>
      ({ s with
        row := OAuthState.settledRow reply
        storedUnder := if reply.isSome then number else s.storedUnder } :
          OAuthState π).setRefresher p .idle
    | _ => none
  | .crash p => s.setRefresher p .idle

/-! ## What a step does -/

/-- The claim a process wins next: the pair it read, and the row it finds. -/
def winning (s : OAuthState π) : OAuthAction π → Option (StoredToken × OAuthToken π)
  | .claim p now =>
    match s.refresher p, s.row with
    | .read current, some row => if claimable now row then some (current, row) else none
    | _, _ => none
  | _ => none

/-- What a step does to the row, to the ghosts and to the processes. -/
inductive OAuthEffect (settings : OAuthSettings) (s : OAuthState π) :
    OAuthAction π → OAuthState π → Prop
  | refused {a} : OAuthEffect settings s a s
  | quiet {a p x} : x.unsettled = none →
      (∀ current, x = .read current → ∃ row, s.row = some row ∧ current = decryptRow row) →
      ((s.refresher p).unsettled = none ∨ a = .crash p) →
      OAuthEffect settings s a (s.setRefresher p x)
  | claim {p now current row} : s.refresher p = .read current → s.row = some row →
      claimable now row → OAuthEffect settings s (.claim p now)
        (({ s with
          row := some { row with
            leaseOwner := some p, leaseUntil := some (now + settings.leaseSeconds * 1000000) }
          claims := s.claims + 1 } : OAuthState π).setRefresher p (.claimed (s.claims + 1) current))
  | present {p number current} : s.refresher p = .claimed number current →
      OAuthEffect settings s (.present p)
        (({ s with presented := current.refreshToken.toList ++ s.presented } :
          OAuthState π).setRefresher p (.exchanging number))
  | reply {p number response} : s.refresher p = .exchanging number →
      OAuthEffect settings s (.reply p response)
        (({ s with issued := (response.bind (·.refreshToken)).toList ++ s.issued } :
          OAuthState π).setRefresher p (.replied number response))
  | settle {p number reply} : s.refresher p = .replied number reply →
      OAuthEffect settings s (.settle p)
        (({ s with
          row := OAuthState.settledRow reply
          storedUnder := if reply.isSome then number else s.storedUnder } :
            OAuthState π).setRefresher p .idle)

section Effect

variable {settings : OAuthSettings} {s t : OAuthState π} {a : OAuthAction π}

theorem OAuthState.setRefresher_refresher (p q : π) (x : Refresher) :
    (s.setRefresher p x).refresher q = if q = p then x else s.refresher q :=
  Function.update_apply _ _ _ _

/-- **What a step does.** -/
theorem oauth_effect (h : oauthStep settings s a = some t) : OAuthEffect settings s a t := by
  cases a with
  | start p now =>
      simp only [oauthStep] at h
      split at h
      · cases h
        exact .refused
      · next row hidle hrow =>
          split at h
          · cases h
            exact .refused
          · cases h
            refine .quiet rfl (fun current hcurrent => ?_) (.inl (by rw [hidle]; rfl))
            cases hcurrent
            exact ⟨row, hrow, rfl⟩
      · cases h
  | claim p now =>
      simp only [oauthStep] at h
      split at h
      · next current hread =>
          cases hrow : s.row with
          | none =>
              rw [hrow] at h
              cases h
              exact .quiet rfl (by rintro _ ⟨⟩) (.inl (by rw [hread]; rfl))
          | some row =>
              by_cases hclaimable : claimable now row
              · rw [hrow, OAuthTokenService.claim, if_pos hclaimable] at h
                cases h
                exact .claim hread hrow hclaimable
              · rw [hrow, OAuthTokenService.claim, if_neg hclaimable] at h
                cases h
                exact .quiet rfl (by rintro _ ⟨⟩) (.inl (by rw [hread]; rfl))
      · cases h
  | poll p now =>
      simp only [oauthStep] at h
      split at h
      · next polls hpolling =>
          have hsettled : (s.refresher p).unsettled = none := by
            rw [hpolling]
            rfl
          split at h
          · cases h
            exact .quiet rfl (by rintro _ ⟨⟩) (.inl hsettled)
          · split at h
            · cases h
              exact .quiet rfl (by rintro _ ⟨⟩) (.inl hsettled)
            · split at h
              all_goals
                cases h
                exact .quiet rfl (by rintro _ ⟨⟩) (.inl hsettled)
      · cases h
  | present p =>
      simp only [oauthStep] at h
      split at h
      · next hclaimed =>
          cases h
          exact .present hclaimed
      · cases h
  | reply p response =>
      simp only [oauthStep] at h
      split at h
      · next hexchanging =>
          cases h
          exact .reply hexchanging
      · cases h
  | settle p =>
      simp only [oauthStep] at h
      split at h
      · next hreplied =>
          cases h
          exact .settle hreplied
      · cases h
  | crash p =>
      cases h
      exact .quiet rfl (by rintro _ ⟨⟩) (.inr rfl)

end Effect

/-! ## Presented once -/

namespace OAuthAction

omit [DecidableEq π] in
/-- The process that is lost. -/
def crashes : OAuthAction π → Option π
  | .crash p => some p
  | _ => none

omit [DecidableEq π] in
/-- The refresh token a reply brings. -/
def brings : OAuthAction π → Option String
  | .reply _ response => response.bind (·.refreshToken)
  | _ => none

end OAuthAction

/-- A claim that is won now finds the refresh token that its process read. -/
def ReadsCurrent (s : OAuthState π) (a : OAuthAction π) : Prop :=
  ∀ c ∈ winning s a, c.2.refreshToken = c.1.refreshToken

/-- Every exchange is settled before its lease expires: no lease is taken from a process that still
holds it, and no such process is lost. -/
def LeasesOutlast (s : OAuthState π) (a : OAuthAction π) : Prop :=
  (∀ c ∈ winning s a, ∀ o ∈ c.2.leaseOwner, (s.refresher o).unsettled = none) ∧
    ∀ p ∈ a.crashes, (s.refresher p).unsettled = none

/-- The provider issues new tokens only. -/
def IssuesNew (s : OAuthState π) (a : OAuthAction π) : Prop := ∀ token ∈ a.brings, token ∉ s.issued

/-- The condition of a step. -/
def PresentsOnce (s : OAuthState π) (a : OAuthAction π) : Prop :=
  ReadsCurrent s a ∧ LeasesOutlast s a ∧ IssuesNew s a

instance (s : OAuthState π) (a : OAuthAction π) : Decidable (ReadsCurrent s a) :=
  inferInstanceAs (Decidable (∀ c ∈ winning s a, _))

instance (s : OAuthState π) (a : OAuthAction π) : Decidable (LeasesOutlast s a) :=
  inferInstanceAs (Decidable ((∀ c ∈ winning s a, ∀ o ∈ c.2.leaseOwner, _) ∧ ∀ p ∈ a.crashes, _))

instance (s : OAuthState π) (a : OAuthAction π) : Decidable (IssuesNew s a) :=
  inferInstanceAs (Decidable (∀ token ∈ a.brings, _))

instance (s : OAuthState π) (a : OAuthAction π) : Decidable (PresentsOnce s a) :=
  inferInstanceAs (Decidable (_ ∧ _ ∧ _))

/-- The stored pair and no process, at first. -/
def OAuthState.ofRow (row : Option (OAuthToken π)) : OAuthState π where
  row := row
  issued := (row.bind (·.refreshToken)).toList

/-- The lease of the row is held by the one process that is not settled, and only that process's
token may have been presented. -/
structure Once (s : OAuthState π) : Prop where
  once : s.presented.Nodup
  seen : s.presented ⊆ s.issued
  stored : ∀ row ∈ s.row, ∀ token ∈ row.refreshToken, token ∈ s.issued
  held : ∀ p, (s.refresher p).unsettled ≠ none → ∃ row, s.row = some row ∧ row.leaseOwner = some p
  leased : ∀ row ∈ s.row, ∀ o ∈ row.leaseOwner, (s.refresher o).unsettled ≠ none
  unused : ∀ row ∈ s.row, row.leaseOwner = none → ∀ token ∈ row.refreshToken, token ∉ s.presented
  claimed : ∀ p number current, s.refresher p = .claimed number current → ∀ row ∈ s.row,
    row.refreshToken = current.refreshToken ∧ ∀ token ∈ row.refreshToken, token ∉ s.presented
  replied : ∀ p number response, s.refresher p = .replied number (some response) →
    ∀ token ∈ response.refreshToken, token ∈ s.issued ∧ token ∉ s.presented

namespace Once

variable {settings : OAuthSettings} {s t : OAuthState π} {a : OAuthAction π} {p q : π}

omit [DecidableEq π] in
/-- One process holds the lease. -/
theorem unique (h : Once s) (hp : (s.refresher p).unsettled ≠ none)
    (hq : (s.refresher q).unsettled ≠ none) : q = p := by
  obtain ⟨row, hrow, howner⟩ := h.held p hp
  obtain ⟨row', hrow', howner'⟩ := h.held q hq
  obtain rfl := Option.some.inj (hrow.symm.trans hrow')
  exact Option.some.inj (howner'.symm.trans howner)

/-- A step of a process that holds no lease. -/
theorem quiet (h : Once s) {x : Refresher} (hx : x.unsettled = none)
    (hp : (s.refresher p).unsettled = none) : Once (s.setRefresher p x) := by
  have hother : ∀ {q y}, y.unsettled ≠ none → (s.setRefresher p x).refresher q = y →
      s.refresher q = y := by
    intro q y hy hq
    rw [OAuthState.setRefresher_refresher] at hq
    split at hq
    · exact absurd (hq ▸ hx) hy
    · exact hq
  refine ⟨h.once, h.seen, h.stored, fun q hq => ?_, fun row hrow o ho => ?_, h.unused,
    fun q number current hq => ?_, fun q number response hq => ?_⟩
  · exact h.held q (hother hq rfl ▸ hq)
  · rw [OAuthState.setRefresher_refresher]
    split
    · next heq => exact absurd hp (heq ▸ h.leased row hrow o ho)
    · exact h.leased row hrow o ho
  · exact h.claimed q number current (hother (Option.some_ne_none _) hq)
  · exact h.replied q number response (hother (Option.some_ne_none _) hq)

/-- A claim that is won on the pair that was read, with nobody else at it. -/
theorem claim (h : Once s) {now : ℤ} {current : StoredToken} {row : OAuthToken π}
    (hrow : s.row = some row) (hreads : row.refreshToken = current.refreshToken)
    (houtlasts : ∀ o ∈ row.leaseOwner, (s.refresher o).unsettled = none) :
    Once (({ s with
      row := some { row with
        leaseOwner := some p, leaseUntil := some (now + settings.leaseSeconds * 1000000) }
      claims := s.claims + 1 } : OAuthState π).setRefresher p (.claimed (s.claims + 1) current)) := by
  have hfree : row.leaseOwner = none := by
    cases howner : row.leaseOwner with
    | none => rfl
    | some o => exact absurd (houtlasts o howner) (h.leased row hrow o howner)
  have hnobody : ∀ q, (s.refresher q).unsettled = none := by
    intro q
    by_contra hq
    obtain ⟨row', hrow', howner⟩ := h.held q hq
    obtain rfl := Option.some.inj (hrow.symm.trans hrow')
    exact Option.some_ne_none q (howner.symm.trans hfree)
  refine ⟨h.once, h.seen, ?_, fun q hq => ?_, ?_, ?_, fun q number current' hq => ?_,
    fun q number response hq => ?_⟩
  · rintro _ ⟨⟩
    exact h.stored row hrow
  · rw [OAuthState.setRefresher_refresher] at hq
    split at hq
    · next heq => exact ⟨_, rfl, congrArg some heq.symm⟩
    · exact absurd (hnobody q) hq
  · rintro _ ⟨⟩ o ⟨⟩
    rw [OAuthState.setRefresher_refresher, if_pos rfl]
    exact Option.some_ne_none _
  · rintro _ ⟨⟩ ⟨⟩
  · rw [OAuthState.setRefresher_refresher] at hq
    split at hq
    · cases hq
      rintro _ ⟨⟩
      exact ⟨hreads, h.unused row hrow hfree⟩
    · have hq : (s.refresher q).unsettled = some number := congrArg Refresher.unsettled hq
      exact absurd (hnobody q) (hq ▸ Option.some_ne_none _)
  · rw [OAuthState.setRefresher_refresher] at hq
    split at hq
    · cases hq
    · have hq : (s.refresher q).unsettled = some number := congrArg Refresher.unsettled hq
      exact absurd (hnobody q) (hq ▸ Option.some_ne_none _)

/-- The holder's token is presented. -/
theorem present (h : Once s) {number : ℕ} {current : StoredToken}
    (hclaimed : s.refresher p = .claimed number current) :
    Once (({ s with presented := current.refreshToken.toList ++ s.presented } :
      OAuthState π).setRefresher p (.exchanging number)) := by
  have hp : (s.refresher p).unsettled ≠ none := by
    rw [hclaimed]
    exact Option.some_ne_none _
  obtain ⟨row, hrow, howner⟩ := h.held p hp
  obtain ⟨hcurrent, hnew⟩ := h.claimed p number current hclaimed row hrow
  have honly : ∀ {q y}, q ≠ p → s.refresher q = y → y.unsettled = none := by
    intro q y hne hq
    by_contra hy
    exact hne (h.unique hp (hq ▸ hy))
  refine ⟨?_, ?_, h.stored, fun q hq => ?_, fun row' hrow' o ho => ?_, fun row' hrow' hfree => ?_,
    fun q number' current' hq => ?_, fun q number' response hq => ?_⟩
  · refine List.nodup_append.mpr ⟨?_, h.once, ?_⟩
    · cases current.refreshToken <;> simp
    · intro token htoken token' htoken' heq
      subst heq
      exact hnew token (hcurrent ▸ Option.mem_toList.mp htoken) htoken'
  · intro token htoken
    rcases List.mem_append.mp htoken with htoken | htoken
    · exact h.stored row hrow token (hcurrent ▸ Option.mem_toList.mp htoken)
    · exact h.seen htoken
  · rw [OAuthState.setRefresher_refresher] at hq
    split at hq
    · next heq => exact ⟨row, hrow, heq ▸ howner⟩
    · exact h.held q hq
  · rw [OAuthState.setRefresher_refresher]
    split
    · exact Option.some_ne_none _
    · exact h.leased row' hrow' o ho
  · obtain rfl := Option.some.inj (hrow.symm.trans hrow')
    exact absurd (howner.symm.trans hfree) (Option.some_ne_none _)
  · rw [OAuthState.setRefresher_refresher] at hq
    split at hq
    · cases hq
    · next hne => exact absurd (honly hne hq) (Option.some_ne_none _)
  · rw [OAuthState.setRefresher_refresher] at hq
    split at hq
    · cases hq
    · next hne => exact absurd (honly hne hq) (Option.some_ne_none _)

/-- The provider's reply brings a new token, if any. -/
theorem reply (h : Once s) {number : ℕ} {response : Option TokenResponse}
    (hexchanging : s.refresher p = .exchanging number)
    (hnew : ∀ token ∈ response.bind (·.refreshToken), token ∉ s.issued) :
    Once (({ s with issued := (response.bind (·.refreshToken)).toList ++ s.issued } :
      OAuthState π).setRefresher p (.replied number response)) := by
  have hp : (s.refresher p).unsettled ≠ none := by
    rw [hexchanging]
    exact Option.some_ne_none _
  have hmore : s.issued ⊆ (response.bind (·.refreshToken)).toList ++ s.issued :=
    List.subset_append_right _ _
  refine ⟨h.once, fun _ ht => hmore (h.seen ht), fun row hrow token ht =>
    hmore (h.stored row hrow token ht), fun q hq => ?_, fun row hrow o ho => ?_, h.unused,
    fun q number' current hq => ?_, fun q number' response' hq => ?_⟩
  · rw [OAuthState.setRefresher_refresher] at hq
    split at hq
    · next heq => exact heq ▸ h.held p hp
    · exact h.held q hq
  · rw [OAuthState.setRefresher_refresher]
    split
    · exact Option.some_ne_none _
    · exact h.leased row hrow o ho
  · rw [OAuthState.setRefresher_refresher] at hq
    split at hq
    · cases hq
    · exact h.claimed q number' current hq
  · rw [OAuthState.setRefresher_refresher] at hq
    split at hq
    · cases hq
      intro token htoken
      refine ⟨List.mem_append_left _ (Option.mem_toList.mpr htoken), fun hpresented => ?_⟩
      exact hnew token htoken (h.seen hpresented)
    · intro token htoken
      obtain ⟨hissued, hnot⟩ := h.replied q number' response' hq token htoken
      exact ⟨hmore hissued, hnot⟩

/-- The holder stores or deletes the pair and is done. -/
theorem settle (h : Once s) {number : ℕ} {reply : Option TokenResponse}
    (hreplied : s.refresher p = .replied number reply) :
    Once (({ s with
      row := OAuthState.settledRow reply
      storedUnder := if reply.isSome then number else s.storedUnder } :
        OAuthState π).setRefresher p .idle) := by
  have hp : (s.refresher p).unsettled ≠ none := by
    rw [hreplied]
    exact Option.some_ne_none _
  have hrow : ∀ row ∈ (OAuthState.settledRow reply : Option (OAuthToken π)),
      row.leaseOwner = none ∧ ∀ token ∈ row.refreshToken, token ∈ s.issued ∧ token ∉ s.presented := by
    cases reply with
    | none => rintro _ ⟨⟩
    | some response =>
        rintro _ ⟨⟩
        exact ⟨rfl, h.replied p number response hreplied⟩
  have hidle : ∀ {q y}, y.unsettled ≠ none → (s.setRefresher p .idle).refresher q = y → False := by
    intro q y hy hq
    rw [OAuthState.setRefresher_refresher] at hq
    split at hq
    · exact hy (hq ▸ rfl)
    · next hne => exact hne (h.unique hp (hq ▸ hy))
  refine ⟨h.once, h.seen, fun row hr token ht => ((hrow row hr).2 token ht).1,
    fun q hq => (hidle hq rfl).elim, fun row hr o ho => ?_,
    fun row hr _ token ht => ((hrow row hr).2 token ht).2,
    fun q n c hq => (hidle (y := .claimed n c) (Option.some_ne_none n) hq).elim,
    fun q n r hq => (hidle (y := .replied n (some r)) (Option.some_ne_none n) hq).elim⟩
  exact absurd (ho.symm.trans (hrow row hr).1) (Option.some_ne_none o)

theorem step (h : Once s) (hok : PresentsOnce s a) (ha : oauthStep settings s a = some t) :
    Once t := by
  obtain ⟨hreads, ⟨houtlasts, hcrash⟩, hnew⟩ := hok
  cases oauth_effect ha with
  | refused => exact h
  | quiet hx _ hp =>
      refine h.quiet hx ?_
      rcases hp with hp | rfl
      · exact hp
      · exact hcrash _ rfl
  | @claim p now current row hread hrow hclaimable =>
      have hwin : winning s (.claim p now) = some (current, row) := by
        simp only [winning, hread, hrow, if_pos hclaimable]
      exact h.claim hrow (hreads _ hwin) (houtlasts _ hwin)
  | present hclaimed => exact h.present hclaimed
  | reply hexchanging => exact h.reply hexchanging hnew
  | settle hreplied => exact h.settle hreplied

omit [DecidableEq π] in
/-- An unleased pair, or none. -/
theorem initial {row : Option (OAuthToken π)} (hrow : ∀ r ∈ row, r.leaseOwner = none) :
    Once (OAuthState.ofRow row) where
  once := .nil
  seen := List.nil_subset _
  stored r hr token ht := by
    obtain rfl : row = some r := hr
    exact Option.mem_toList.mpr ht
  held _ hp := absurd rfl hp
  leased r hr o ho := absurd (ho.symm.trans (hrow r hr)) (Option.some_ne_none o)
  unused _ _ _ _ _ := List.not_mem_nil
  claimed _ _ _ hp := by cases hp
  replied _ _ _ hp := by cases hp

end Once

/-- **Each refresh token is presented once**, in every state of every run in which a claim is won
only on the refresh token that its process read, exchanges are settled before their leases expire,
and the provider issues new tokens only. -/
theorem presented_once {settings : OAuthSettings} {row : Option (OAuthToken π)}
    {as : List (OAuthAction π)} {t : OAuthState π} (hrow : ∀ r ∈ row, r.leaseOwner = none)
    (hrun : Trace.Run (oauthStep settings) PresentsOnce (.ofRow row) as t) : t.presented.Nodup :=
  (hrun.invariant Once (fun h hok ha => h.step hok ha) (.initial hrow)).once

/-- A pair that has expired. -/
def expiredToken : OAuthToken (Fin 2) where
  accessToken := "a0"
  refreshToken := some "r0"
  expiresAt := 0
  refreshExpiresAt := none
  scope := none

/-- A response with the refresh token of a number, that expires at once. -/
def responseOf (refreshToken : String) : TokenResponse where
  accessToken := "a1"
  refreshToken := some refreshToken
  expiresAt := 0

/-- A whole exchange of a process that has claimed. -/
def exchangeActions (p : Fin 2) (refreshToken : String) : List (OAuthAction (Fin 2)) :=
  [.present p, .reply p (some (responseOf refreshToken)), .settle p]

omit [DecidableEq π] in
/-- Two processes that refresh one after the other. -/
theorem presented_once_sequential :
    ∃ t : OAuthState (Fin 2), t.presented = ["r1", "r0"] ∧ t.presented.Nodup := by
  have hrun : (Trace.exec (oauthStep {}) PresentsOnce (.ofRow (some expiredToken))
      (.start 0 1 :: .claim 0 1 :: exchangeActions 0 "r1" ++ .start 1 2 :: .claim 1 2 ::
        exchangeActions 1 "r2")).map OAuthState.presented = some ["r1", "r0"] := by decide
  obtain ⟨t, ht, hpresented⟩ := Option.map_eq_some_iff.mp hrun
  exact ⟨t, hpresented, presented_once (by rintro _ ⟨⟩; rfl) (.of_exec ht)⟩

omit [DecidableEq π] in
/-- Two processes read the pair. One refreshes it, which clears the lease, and the other one then
claims it and presents the token it read. -/
theorem presented_twice :
    ∃ t, Trace.exec (oauthStep {}) (fun s a => LeasesOutlast s a ∧ IssuesNew s a)
        (.ofRow (some expiredToken)) (.start 0 1 :: .start 1 1 :: .claim 0 1 ::
          exchangeActions 0 "r1" ++ [.claim 1 2, .present 1]) = some t ∧ ¬ t.presented.Nodup := by
  have hrun : (Trace.exec (oauthStep {}) (fun s a => LeasesOutlast s a ∧ IssuesNew s a)
      (.ofRow (some expiredToken)) (.start 0 1 :: .start 1 1 :: .claim 0 1 ::
        exchangeActions 0 "r1" ++ [.claim 1 2, .present 1])).map OAuthState.presented
      = some ["r0", "r0"] := by decide
  obtain ⟨t, ht, hpresented⟩ := Option.map_eq_some_iff.mp hrun
  refine ⟨t, ht, ?_⟩
  rw [hpresented]
  decide

/-! ## A lease that was taken over -/

/-- The claim under which a process stores a pair now. -/
def storing (s : OAuthState π) : OAuthAction π → Option ℕ
  | .settle p =>
    match s.refresher p with
    | .replied number (some _) => some number
    | _ => none
  | _ => none

/-- No holder stores while an earlier one is still at it. -/
def StoresLast (s : OAuthState π) (a : OAuthAction π) : Prop :=
  ∀ number ∈ storing s a, ∀ p, ∀ earlier ∈ (s.refresher p).unsettled, number ≤ earlier

instance [Fintype π] (s : OAuthState π) (a : OAuthAction π) : Decidable (StoresLast s a) :=
  inferInstanceAs (Decidable (∀ number ∈ storing s a, ∀ p, ∀ earlier ∈ (s.refresher p).unsettled, _))

/-- The processes still at it hold claims that were made, and the pair was stored under none that is
later. -/
structure Latest (s : OAuthState π) : Prop where
  stored : s.storedUnder ≤ s.claims
  ordered : ∀ p, ∀ number ∈ (s.refresher p).unsettled, s.storedUnder ≤ number ∧ number ≤ s.claims

namespace Latest

variable {settings : OAuthSettings} {s t : OAuthState π} {a : OAuthAction π}

/-- A process goes on, under a claim that was made and is no earlier than the stored one, or under
none. -/
theorem set (h : Latest s) {u : OAuthState π} {p : π} {x : Refresher}
    (hu : u.refresher = s.refresher) (hstored : u.storedUnder = s.storedUnder)
    (hclaims : s.claims ≤ u.claims)
    (hx : ∀ number ∈ x.unsettled, s.storedUnder ≤ number ∧ number ≤ u.claims) :
    Latest (u.setRefresher p x) := by
  have hlater := h.stored
  refine ⟨?_, fun q number hq => ?_⟩
  · show u.storedUnder ≤ u.claims
    omega
  · show u.storedUnder ≤ number ∧ number ≤ u.claims
    rw [OAuthState.setRefresher_refresher] at hq
    split at hq
    · have := hx number hq
      omega
    · have := h.ordered q number (hu ▸ hq)
      omega

/-- A process stores the pair under its claim, which is the earliest one still unsettled. -/
theorem store (h : Latest s) {p : π} {number : ℕ} {row : Option (OAuthToken π)}
    (hp : number ∈ (s.refresher p).unsettled)
    (hlast : ∀ q, ∀ earlier ∈ (s.refresher q).unsettled, number ≤ earlier) :
    Latest (({ s with row, storedUnder := number } : OAuthState π).setRefresher p .idle) := by
  refine ⟨(h.ordered p number hp).2, fun q earlier hq => ?_⟩
  rw [OAuthState.setRefresher_refresher] at hq
  split at hq
  · cases hq
  · exact ⟨hlast q earlier hq, (h.ordered q earlier hq).2⟩

theorem step (h : Latest s) (hok : StoresLast s a) (ha : oauthStep settings s a = some t) :
    Latest t := by
  cases oauth_effect ha with
  | refused => exact h
  | quiet hx _ _ =>
      refine h.set rfl rfl (Nat.le_refl _) fun number hnumber => ?_
      rw [hx] at hnumber
      cases hnumber
  | claim _ _ _ =>
      refine h.set rfl rfl (Nat.le_succ _) ?_
      rintro _ ⟨⟩
      exact ⟨Nat.le_succ_of_le h.stored, Nat.le_refl _⟩
  | @present p number _ hclaimed =>
      refine h.set rfl rfl (Nat.le_refl _) ?_
      rintro _ ⟨⟩
      exact h.ordered p number (by rw [hclaimed]; rfl)
  | @reply p number _ hexchanging =>
      refine h.set rfl rfl (Nat.le_refl _) ?_
      rintro _ ⟨⟩
      exact h.ordered p number (by rw [hexchanging]; rfl)
  | @settle p number reply hreplied =>
      cases reply with
      | none =>
          refine h.set rfl rfl (Nat.le_refl _) ?_
          rintro _ ⟨⟩
      | some response =>
          have hstoring : storing s (.settle p) = some number := by
            simp only [storing, hreplied]
          exact h.store (by rw [hreplied]; rfl) (hok number hstoring)

omit [DecidableEq π] in
theorem initial {row : Option (OAuthToken π)} : Latest (OAuthState.ofRow row) where
  stored := Nat.le_refl 0
  ordered _ _ hp := by cases hp

end Latest

end Resourcey
