import Treasury.Proofs.Course
import Treasury.Proofs.Holdings
import Treasury.Proofs.Pricing
import Treasury.Proofs.TokenFaults
import Treasury.Proofs.Valuation

/-! Solvency of fixed-rate pools. A pool issues shares worth no more than it takes, and pays no more
than shares are worth, both by rounding down. So what it holds covers all its shares at its rate, as
long as its admin does not raise the rate, and whoever has shares can be paid for them. -/
namespace Treasury

open Exec Chain

/-- The settings of a fixed-rate adapter. -/
def Contract.fixedSettings? (x : Contract) : Option Strategy.FixedRate :=
  (Storage.pick x).map fun s : Strategy.FixedRate => { s with ledger := {} }

theorem Contract.fixedSettings?_bare (x : Contract) :
    x.bare.fixedSettings? = x.fixedSettings? := by cases x <;> rfl

namespace Chain

/-- The fixed-rate adapter at `x` keeps its token and its admin. Nobody but that admin changes its
rate. -/
def Retunes (user x : Address) (c c' : Chain) : Prop :=
  ∀ s, c.contract? x = some (.fixedRate s) → ∃ s', c'.contract? x = some (.fixedRate s') ∧
    s'.stable = s.stable ∧ s'.admin = s.admin ∧ (s'.rate = s.rate ∨ s.admin = some user)

/-- A user who is the admin of the fixed-rate adapter at `x` does not raise its rate. -/
def Steady (x user : Address) (c c' : Chain) : Prop :=
  ∀ s s', c.contract? x = some (.fixedRate s) → c'.contract? x = some (.fixedRate s') →
    s.admin = some user → s'.rate ≤ s.rate

/-- What the pool at `x` holds of the token at `t` covers all its shares at a rate. -/
def Backs (x t : Address) (rate : Amount) (c : Chain) : Prop :=
  c.supply x * rate ≤ c.balance t x * rateScale

variable {c c₁ c' : Chain} {user x t a : Address} {old new : Contract} {rate : Amount}
  {joins leaves : Prop}

namespace Retunes

theorem of_same (h : c'.contract? x = c.contract? x) : Retunes user x c c' :=
  fun s hs => ⟨s, h.trans hs, rfl, rfl, .inl rfl⟩

theorem refl (c : Chain) : Retunes user x c c := of_same rfl

theorem trans (hFirst : Retunes user x c c₁) (hThen : Retunes user x c₁ c') :
    Retunes user x c c' := by
  intro s hs
  obtain ⟨s₁, hs₁, hStable, hAdmin, hRate⟩ := hFirst s hs
  obtain ⟨s', hs', hStable', hAdmin', hRate'⟩ := hThen s₁ hs₁
  refine ⟨s', hs', hStable'.trans hStable, hAdmin'.trans hAdmin, ?_⟩
  rcases hRate with hSame | hUser
  · exact hRate'.imp (·.trans hSame) (hAdmin ▸ ·)
  · exact .inr hUser

/-- A contract that is no fixed-rate adapter changes. -/
theorem put_other (hOld : c.contract? a = some old) (hKind : old.kind ≠ .fixedRate) :
    Retunes user x c (c.put a new) := by
  intro s hs
  have hNe : x ≠ a := by
    rintro rfl
    obtain rfl := Option.some.inj (hOld.symm.trans hs)
    exact hKind rfl
  exact ⟨s, (contract?_put_of_ne c new hNe).trans hs, rfl, rfl, .inl rfl⟩

/-- Fixed-rate adapters keep their settings. -/
theorem of_settings (h : (c'.contract? x).map Contract.fixedSettings? =
    (c.contract? x).map Contract.fixedSettings?) : Retunes user x c c' := by
  intro s hs
  rw [hs] at h
  obtain ⟨y, hy, hSettings⟩ := Option.map_eq_some_iff.1 h
  obtain ⟨s', hPick, hSame⟩ := Option.map_eq_some_iff.1 hSettings
  obtain rfl := (Storage.pick_eq_some_iff y s').1 hPick
  have hStable := congrArg Strategy.FixedRate.stable hSame
  have hAdmin := congrArg Strategy.FixedRate.admin hSame
  have hRate := congrArg Strategy.FixedRate.rate hSame
  exact ⟨s', hy, hStable, hAdmin, .inl hRate⟩

end Retunes

end Chain

section Steps

variable {user x t : Address} {c c' : Chain}

theorem Flow.retunes (h : Flow user c c') : c.Retunes user x c' :=
  .of_settings (h.map Contract.fixedSettings?_bare (fun _ _ => rfl) (fun _ => rfl) x)

theorem Configured.retunes (h : Configured user c c') : c.Retunes user x c' := by
  cases h with
  | minters hOld | ruled hOld | obeyed hOld | released _ _ hOld =>
    exact .put_other hOld (by simp [Contract.kind])
  | bound h => exact .of_settings (h.map (fun _ _ => rfl) (fun _ _ => rfl) x)
  | @tuned a old new hOld h =>
    by_cases hAt : x = a
    · subst hAt
      intro s hs
      obtain rfl := Option.some.inj (hOld.symm.trans hs)
      cases h with
      | fixedRate h =>
        simp only [Strategy.FixedRate.setRate, Result.bind_eq_ok, ensure_eq_ok] at h
        obtain ⟨_, hAdmin, _, _, ⟨⟩⟩ := h
        exact ⟨_, contract?_put_self _ hOld, rfl, rfl, .inr hAdmin⟩
      | fixedRatePaused h =>
        simp only [Strategy.FixedRate.setPaused, Result.bind_eq_ok, ensure_eq_ok] at h
        obtain ⟨_, _, ⟨⟩⟩ := h
        exact ⟨_, contract?_put_self _ hOld, rfl, rfl, .inl rfl⟩
    · exact .of_same (contract?_put_of_ne c _ hAt)

theorem Chain.Arranged.retunes (h : c.Arranged user c') : c.Retunes user x c' := by
  cases h with
  | settled h =>
    induction h with
    | refl => exact .refl _
    | step _ hThen ih => exact ih.trans hThen.retunes
  | governed h =>
    refine .of_settings (h.map ?_ ?_ ?_ ?_ x)
    all_goals intros; rfl
  | rewired h =>
    cases h with
    | custody hOld | share hOld | router hOld => exact .put_other hOld (by simp [Contract.kind])

theorem Deed.retunes (h : Deed user c c') (hBuilt : x ∉ c.blank) : c.Retunes user x c' := by
  cases h with
  | minted hOld | burned hOld => exact .put_other hOld (by simp [Contract.kind])
  | standalone hOld hKind =>
    refine .put_other hOld fun hFixed => ?_
    simp [hFixed] at hKind
  | constructed hOld hBlank =>
    refine .of_same (contract?_put_of_ne c _ ?_)
    rintro rfl
    exact hBuilt hBlank

/-- Whatever a user does with a chain, a fixed-rate adapter that was constructed when it was
deployed keeps its rate, unless the user is its admin. -/
theorem Chain.Leads.retunes (h : c.Leads user c') (hBuilt : x ∉ c.blank) :
    c.Retunes user x c' := by
  rcases h.performs_or_gains with hPerforms | ⟨a, y, hGains⟩ | rfl
  · cases hPerforms with
    | dealt hDeal => exact .of_settings (hDeal.alike.map Contract.fixedSettings?_bare x)
    | flowed _ hFlow => exact hFlow.retunes
    | issued hOld | retired hOld => exact .put_other hOld (by simp [Contract.kind])
    | deed hDeed => exact hDeed.retunes hBuilt
    | arranged hArranged => exact hArranged.retunes
  · intro s hs
    have hNe : x ≠ a := hGains.ne_of_stands (by simp [kind?_of_contract? hs])
    exact ⟨s, ((hGains.contracts x).trans (if_neg hNe)).trans hs, rfl, rfl, .inl rfl⟩
  · exact .of_same rfl

end Steps

section Backing

variable {user x t : Address} {c c' : Chain} {s : Strategy.FixedRate}
  {rate rate' n shares : Nat} {joins leaves : Prop}

theorem Chain.Undiminished.backs (h : Undiminished x t c c') (hBacks : c.Backs x t rate) :
    c'.Backs x t rate := by
  rw [Backs, h.supply]
  exact Nat.le_trans hBacks (Nat.mul_le_mul_right _ h.balance)

theorem Chain.Backs.lower (h : c.Backs x t rate) (hLower : rate' ≤ rate) : c.Backs x t rate' :=
  Nat.le_trans (Nat.mul_le_mul_left _ hLower) h

/-- What a pool takes for shares covers them. -/
theorem Chain.Backs.joined (h : c.Backs x t rate)
    (hPrice : Rate.sharesForDeposit n rate = .ok shares)
    (hSupply : c'.supply x = c.supply x + shares) (hBalance : c'.balance t x = c.balance t x + n) :
    c'.Backs x t rate := by
  have hCovered := (Rate.sharesForDeposit_bounds hPrice).1
  rw [Backs, hSupply, hBalance, Nat.add_mul, Nat.add_mul]
  exact Nat.add_le_add h hCovered

/-- What a pool pays for shares leaves enough for the others. -/
theorem Chain.Backs.left (h : c.Backs x t rate)
    (hPrice : Rate.assetsForShares shares rate = .ok n)
    (hSupply : c'.supply x + shares = c.supply x) (hBalance : c.balance t x ≤ c'.balance t x + n) :
    c'.Backs x t rate := by
  have hPaid : n * rateScale ≤ shares * rate := Amount.mulDiv_mul_le hPrice
  have hAll : (c'.supply x + shares) * rate ≤ (c'.balance t x + n) * rateScale := by
    rw [hSupply]
    exact Nat.le_trans h (Nat.mul_le_mul_right _ hBalance)
  rw [Nat.add_mul, Nat.add_mul] at hAll
  rw [Backs]
  omega

/-- Settings tell what a fixed-rate adapter deals in, and at which rate. -/
theorem Chain.fixedRate_of_settings {s₀ : Strategy.FixedRate}
    (h : (c.contract? x).map Contract.bare = some (.fixedRate s₀)) :
    ∃ s, c.contract? x = some (.fixedRate s) ∧ s.stable = s₀.stable ∧ s.rate = s₀.rate := by
  obtain ⟨y, hy, hSame⟩ := Option.map_eq_some_iff.1 h
  cases y <;> cases hSame
  exact ⟨_, hy, rfl, rfl⟩

/-- Whatever deposits and withdrawals a fixed-rate pool with some settings goes through, it goes on
to cover its shares. -/
theorem Chain.Turns.backs_of_settings (h : Turns x t joins leaves c c') (hHolds : c.Holds x t)
    {s₀ : Strategy.FixedRate} (hSettings : (c.contract? x).map Contract.bare = some (.fixedRate s₀))
    (hStable : s₀.stable = some t) (hBacks : c.Backs x t s₀.rate) : c'.Backs x t s₀.rate := by
  induction h with
  | kept hKept => exact hKept.backs hBacks
  | trans hFirst _ ihFirst ihThen =>
    exact ihThen (hFirst.holds hHolds) (hFirst.settings.1.trans hSettings)
      (ihFirst hHolds hSettings hBacks)
  | joined _ hPrice hMove hMint =>
    obtain ⟨s, hs, hSame, hRate⟩ := fixedRate_of_settings hSettings
    cases hPrice with
    | synthetic hPool | yieldVault hPool => simp [hs] at hPool
    | fixedRate hPool hToken hShares =>
      obtain ⟨⟩ := Option.some.inj (hs.symm.trans hPool)
      obtain ⟨⟩ := Option.some.inj ((hSame.trans hStable).symm.trans hToken)
      obtain ⟨hSupply, hBalance⟩ := joined_spec hHolds hMove hMint
      exact hBacks.joined (hRate ▸ hShares) hSupply hBalance
  | left _ hPrice hTakes hTake hMove =>
    obtain ⟨s, hs, hSame, hRate⟩ := fixedRate_of_settings hSettings
    cases hPrice with
    | synthetic hPool | yieldVault hPool => simp [hs] at hPool
    | fixedRate hPool hToken hPaid =>
      obtain ⟨⟩ := Option.some.inj (hs.symm.trans hPool)
      obtain ⟨⟩ := Option.some.inj ((hSame.trans hStable).symm.trans hToken)
      obtain ⟨hSupply, hBalance⟩ := left_spec hHolds hTakes hTake hMove
      exact hBacks.left (hRate ▸ hPaid) hSupply hBalance

theorem Chain.Turns.backs (h : Turns x t joins leaves c c') (hHolds : c.Holds x t)
    (hs : c.contract? x = some (.fixedRate s)) (hStable : s.stable = some t)
    (hBacks : c.Backs x t s.rate) : c'.Backs x t s.rate := by
  have hSettings : (c.contract? x).map Contract.bare = some (Contract.fixedRate s).bare := by
    rw [hs, Option.map_some]
  have hThen := h.backs_of_settings hHolds hSettings hStable hBacks
  exact hThen

end Backing

namespace Strategy

variable {c : Chain} {x t caller : Address} {n shares : Nat} {s : Strategy.FixedRate} {e : Fault}

/-- A withdrawal from a fixed-rate adapter is its own withdrawal. -/
theorem fails_withdraw_fixedRate (hs : c.contract? x = some (.fixedRate s)) :
    Fails (Strategy.withdraw x caller shares) c e ↔ Fails (s.withdraw x caller shares) c e := by
  simp only [Strategy.withdraw]
  rw [@fails_entering _ _ _ _ _ _ _ (@Additive.bind _ _ _ _ _ fun x => by
    split <;> infer_instance), fails_view_bind]
  have hView : View.contract x c = .ok (.fixedRate s) := View.contract_eq_ok.2 hs
  simp only [hView, reduceCtorEq, false_or, Except.ok.injEq, exists_eq_left']

/-- Only for want of what it holds does a fixed-rate adapter say that it lacks liquidity. -/
theorem FixedRate.lacks_of_fails
    (h : Fails (s.withdraw x caller shares) c (.refused .insufficientLiquidity)) :
    ∃ t paid held, s.stable = some t ∧ Rate.assetsForShares shares s.rate = .ok paid ∧
      Token.balanceOf t x c = .ok held ∧ held < paid := by
  simp only [withdraw, fails_result_bind, fails_view_bind, fails_update_bind, ensure_eq_error,
    ensure_eq_ok, known_eq_ok, fails_bind (m := Token.transfer _ _ _ _), fails_pure] at h
  rcases h with ⟨-, ⟨⟩⟩ | ⟨_, -, h⟩
  rcases h with h | ⟨paid, hPaid, h⟩
  · rcases Amount.mulDiv_eq_error h with hNot | hNot <;> cases hNot
  rcases h with h | ⟨t, ht, h⟩
  · cases known_eq_error h
  rcases h with h | ⟨held, hHeld, h⟩
  · rcases Token.balanceOf_eq_error h with hNot | hNot <;> cases hNot
  rcases h with ⟨hLess, -⟩ | ⟨_, -, h⟩
  · exact ⟨t, paid, held, ht, hPaid, hHeld, Nat.lt_of_not_le hLess⟩
  -- Neither taking the shares nor paying for them can fail for this cause.
  rcases h with h | ⟨s', -, h | ⟨s'', -, h | ⟨_, _, _, -, h⟩⟩⟩
  · rcases View.storage_eq_error h with hNot | hNot <;> cases hNot
  · rcases Result.bind_eq_error.1 h with hTake | ⟨_, -, hEnd⟩
    · have hIn := Token.Ledger.takeShares_faults hTake
      simp [Token.faults] at hIn
    · cases hEnd
  · rcases Token.fails_transfer h with ⟨hNot | hNot, -⟩ | ⟨l, -, hMove⟩
    · cases hNot
    · cases hNot
    · have hIn := Token.Ledger.transfer_faults hMove
      simp [Token.faults] at hIn
  · exact h.elim

end Strategy

section Runs

variable {user x t : Address} {c c' : Chain} {s : Strategy.FixedRate}

/-- In a run of accounts a fixed-rate adapter holds something between calls. -/
theorem Run.holds_of_fixedRate {Kept : Chain → Prop} (h : Run Address.IsAccount Kept c)
    (hs : c.contract? x = some (.fixedRate s))
    (hToken : c.kind? t = none ∨ c.kind? t = some .stable) : c.Holds x t :=
  h.holds ⟨_, by simp [Contract.kind], kind?_of_contract? hs⟩ hToken

/-- A fixed-rate adapter that stands after something was done with a chain stood there before, with
the same token and at no lower rate unless it was raised, or it is new. -/
theorem Chain.Leads.fixedRate_before (h : c.Leads user c') (hSteady : Steady x user c c')
    (hBuilt : x ∉ c.blank) (hs : c'.contract? x = some (.fixedRate s))
    (hStands : c.kind? x ≠ none) :
    ∃ s₀, c.contract? x = some (.fixedRate s₀) ∧ s₀.stable = s.stable ∧ s.rate ≤ s₀.rate := by
  obtain ⟨k, hk⟩ := Option.ne_none_iff_exists'.1 hStands
  obtain rfl : k = .fixedRate :=
    Option.some.inj ((h.advances.kind? hk).symm.trans (kind?_of_contract? hs))
  obtain ⟨y, hy, hKind⟩ := Option.map_eq_some_iff.1 hk
  cases y <;> cases hKind
  next s₀ =>
    obtain ⟨s', hs', hStable, -, hRate⟩ := h.retunes hBuilt s₀ hy
    obtain ⟨⟩ := Option.some.inj (hs'.symm.trans hs)
    refine ⟨s₀, hy, hStable.symm, ?_⟩
    rcases hRate with hSame | hAdmin
    · exact Nat.le_of_eq hSame
    · exact hSteady s₀ s hy hs hAdmin

/-- While its admin does not raise its rate, what a fixed-rate adapter holds covers its shares,
whatever accounts do. -/
theorem Course.backs (h : Course Address.IsAccount (Chain.Steady x) c)
    (hs : c.contract? x = some (.fixedRate s)) (hStable : s.stable = some t)
    (hToken : c.kind? t = none ∨ c.kind? t = some .stable) (hBuilt : x ∉ c.blank) :
    c.Backs x t s.rate := by
  induction h generalizing s with
  | start => cases hs
  | @step c c' user hCourse hUser hLeads hSteady ih =>
    rcases hLeads.kind_before (kind?_of_contract? hs) with hKind | ⟨y, hGains⟩
    · have hStands : c.kind? x ≠ none := hKind ▸ Option.some_ne_none _
      have hBuilt' : x ∉ c.blank := mt hLeads.advances.blank hBuilt
      have hToken' := hLeads.token_before hToken
      obtain ⟨s₀, hs₀, hSame, hRate⟩ := hLeads.fixedRate_before hSteady hBuilt' hs hStands
      have hStable₀ := hSame.trans hStable
      have hBefore := ih hs₀ hStable₀ hToken' hBuilt'
      have hHolds := hCourse.run.holds_of_fixedRate hs₀ hToken'
      have hOther : user ≠ x := hCourse.run.ne_of_stands hUser hStands
      refine Chain.Backs.lower ?_ hRate
      rcases hLeads.flow_or_undiminished hOther hBuilt' hHolds with hFlow | hKept
      · exact (hFlow.turns hOther hHolds).backs hHolds hs₀ hStable₀ hBefore
      · exact hKept.backs hBefore
    · rw [Backs, hGains.supply_eq_zero, Nat.zero_mul]
      exact Nat.zero_le _

end Runs

/-- The moments of a call of a user. Value has flowed, and contracts may have let others take tokens
of theirs and not have ended that yet. -/
inductive Chain.Midst (user : Address) (c : Chain) : Chain → Prop where
  | begun : Midst user c c
  | flowed {c₁ c' : Chain} (h : Midst user c c₁) (hFlow : Flow user c₁ c') : Midst user c c'
  | lent {c₁ c' : Chain} {t lender spender : Address} {n : Amount} (h : Midst user c c₁)
      (hLender : c₁.Lends lender) (hAllow : c₁.Moves t (.approve lender spender n) c') :
      Midst user c c'

/-- The fixed-rate adapter at `x` deals in the token at `t`, and holds enough of it for all its
shares, which add up. -/
structure Chain.Funded (x t : Address) (rate : Amount) (c : Chain) : Prop where
  pool : ∃ s, c.contract? x = some (.fixedRate s) ∧ s.stable = some t ∧ s.rate = rate
  holds : c.Holds x t
  backs : c.Backs x t rate
  adds : c.Balanced x

namespace Chain.Funded

variable {user x t caller : Address} {c c' : Chain} {rate : Amount} {shares : Nat}

theorem flow (h : c.Funded x t rate) (hFlow : Flow user c c') (hOther : user ≠ x) :
    c'.Funded x t rate := by
  obtain ⟨s, hs, hStable, rfl⟩ := h.pool
  have hTurns := hFlow.turns hOther h.holds
  obtain ⟨s', hs', hStable', hRate⟩ := fixedRate_of_settings
    (hTurns.settings.1.trans (congrArg (Option.map Contract.bare) hs))
  exact ⟨⟨s', hs', hStable'.trans hStable, hRate⟩, hTurns.holds h.holds,
    hTurns.backs h.holds hs hStable h.backs, hFlow.balanced h.adds⟩

theorem midst (h : c.Funded x t rate) (hUser : user ≠ x) (hMidst : c.Midst user c') :
    c'.Funded x t rate := by
  induction hMidst with
  | begun => exact h
  | flowed _ hFlow ih => exact ih.flow hFlow hUser
  | lent _ hLender hAllow ih =>
    exact ih.flow (.trade (.allowed hAllow)) (ih.holds.ne_of_lender hLender.lender)

/-- Whoever owns shares is not turned away for want of liquidity. -/
theorem not_lacks (h : c.Funded x t rate) (hOwns : shares ≤ c.balance x caller) :
    ¬Fails (Strategy.withdraw x caller shares) c (.refused .insufficientLiquidity) := by
  intro hFails
  obtain ⟨s, hs, hStable, rfl⟩ := h.pool
  obtain ⟨b, paid, held, hb, hPaid, hHeld, hLess⟩ :=
    Strategy.FixedRate.lacks_of_fails ((Strategy.fails_withdraw_fixedRate hs).1 hFails)
  obtain rfl : t = b := Option.some.inj (hStable.symm.trans hb)
  obtain rfl := Token.balanceOf_ok hHeld
  have hBooks : c.books? x = some s.ledger := books?_of_contract? hs
  have hAll : shares ≤ c.supply x := by
    rw [balance, hBooks] at hOwns
    rw [supply, hBooks]
    exact Nat.le_trans hOwns ((h.adds _ hBooks).le_supply caller)
  have hWorth : paid * rateScale ≤ c.balance t x * rateScale :=
    calc paid * rateScale ≤ shares * s.rate := Amount.mulDiv_mul_le hPaid
      _ ≤ c.supply x * s.rate := Nat.mul_le_mul_right _ hAll
      _ ≤ c.balance t x * rateScale := h.backs
  exact absurd (Nat.le_of_mul_le_mul_right hWorth Rate.rateScale_pos) (Nat.not_le.2 hLess)

end Chain.Funded

section Solvency

variable {x t : Address} {c : Chain} {s : Strategy.FixedRate}

/-- While its admin does not raise its rate, what a fixed-rate adapter holds of its stable token
covers all its shares at the rate, whatever accounts do to any contracts. So nobody who owns shares
is turned away for want of liquidity, neither between calls nor in the middle of a call. -/
theorem Course.fixed_rate_solvent (hCourse : Course Address.IsAccount (Chain.Steady x) c)
    (hs : c.contract? x = some (.fixedRate s)) (hBuilt : x ∉ c.blank) (hStable : s.stable = some t)
    (hUnit : c.kind? t = some .stable) :
    (∃ held issued, Token.balanceOf t x c = .ok held ∧ Token.totalSupply x c = .ok issued ∧
      issued * s.rate ≤ held * 1_000_000_000_000_000_000) ∧
    (∀ caller shares, Token.balanceOf x caller c = .ok shares → ∀ part ≤ shares,
      c.submit caller x (.strategy (.withdraw part)) ≠
        .error (.refused .insufficientLiquidity)) ∧
    ∀ d c', c.Midst (.account d) c' → ∀ caller shares, Token.balanceOf x caller c' = .ok shares →
      ∀ part ≤ shares,
        ¬Fails (Strategy.withdraw x caller part) c' (.refused .insufficientLiquidity) := by
  have hHolds := hCourse.run.holds_of_fixedRate hs (.inr hUnit)
  have hFunded : c.Funded x t s.rate := by
    refine ⟨⟨s, hs, hStable, rfl⟩, hHolds, hCourse.backs hs hStable (.inr hUnit) hBuilt, ?_⟩
    exact hCourse.run.balanced (.of_kind (kind?_of_contract? hs) (by simp [Contract.kind]))
  refine ⟨?_, fun caller shares hOwns part hPart => ?_,
    fun d c' hMidst caller shares hOwns part hPart => ?_⟩
  · have hBooks : View.books "total_supply" x c = .ok s.ledger :=
      View.bind_eq_ok.2 ⟨_, View.contract_eq_ok.2 hs, rfl⟩
    refine ⟨_, s.ledger.supply, Token.balanceOf_stable hUnit x,
      View.bind_eq_ok.2 ⟨_, hBooks, rfl⟩, ?_⟩
    have hBacks := hFunded.backs
    rw [Backs, supply, books?_of_contract? hs] at hBacks
    exact hBacks
  · intro hFails
    refine hFunded.not_lacks (hPart.trans_eq (Token.balanceOf_ok hOwns).symm) ?_
    exact fails_map.1 (submit_eq_error.1 hFails)
  · have hOther : Address.account d ≠ x :=
      hCourse.run.ne_of_stands ⟨d, rfl⟩ (by simp [kind?_of_contract? hs])
    have hThen := hFunded.midst hOther hMidst
    exact hThen.not_lacks (hPart.trans_eq (Token.balanceOf_ok hOwns).symm)

/-- Whether the rate of the fixed-rate adapter at `x` is not raised. -/
def Chain.keepsRate (x : Address) (c c' : Chain) : Bool :=
  match (c.contract? x).bind Contract.fixedSettings?,
    (c'.contract? x).bind Contract.fixedSettings? with
  | some s, some s' => decide (s'.rate ≤ s.rate)
  | _, _ => true

theorem Chain.steady_of_keepsRate {user : Address} {c' : Chain} (h : keepsRate x c c' = true) :
    Steady x user c c' := by
  intro s s' hs hs' _
  simpa [keepsRate, hs, hs', Contract.fixedSettings?, Storage.pick] using h

/-- A saver pays 100 into a pool at a rate of 1.5, and its admin lowers the rate to 1.2. The pool
holds 100, enough for the saver's 66 shares. -/
theorem Course.fixed_rate_solvent_lowered : ∃ c s held issued,
    Course Address.IsAccount (Chain.Steady (.ofNumber 2)) c ∧
      c.contract? (.ofNumber 2) = some (.fixedRate s) ∧ .ofNumber 2 ∉ c.blank ∧
      s.stable = some Standard.stable ∧ c.kind? Standard.stable = some .stable ∧
      s.rate = 1_200_000_000_000_000_000 ∧
      Token.balanceOf (.ofNumber 2) (.account 1) c = .ok 66 ∧
      Token.balanceOf Standard.stable (.ofNumber 2) c = .ok held ∧
      Token.totalSupply (.ofNumber 2) c = .ok issued ∧
      issued * s.rate ≤ held * 1_000_000_000_000_000_000 ∧
      c.submit (.account 1) (.ofNumber 2) (.strategy (.withdraw 66)) ≠
        .error (.refused .insufficientLiquidity) ∧
      ¬Fails (Strategy.withdraw (.ofNumber 2) (.account 1) 40) c
        (.refused .insufficientLiquidity) := by
  have hEnd : (Action.follow (Chain.keepsRate (.ofNumber 2)) {}
      [.deploy 0 (.stable (.account 0) "Stable" "STBL" 18),
        .deploy 0 (.fixedRate (.account 0) Standard.stable (.account 1)
          1_500_000_000_000_000_000),
        .call 0 Standard.stable (.stable (.mint (.account 1) 100)),
        .call 1 Standard.stable (.token (.approve (.ofNumber 2) 100)),
        .call 1 (.ofNumber 2) (.strategy (.deposit 100)),
        .call 0 (.ofNumber 2) (.strategy (.setRate 1_200_000_000_000_000_000))]).any (fun c =>
      ((c.contract? (.ofNumber 2)).bind (Storage.pick (σ := Strategy.FixedRate))).any (fun s =>
          s.stable == some Standard.stable && s.rate == 1_200_000_000_000_000_000) &&
        decide (.ofNumber 2 ∉ c.blank) && decide (c.kind? Standard.stable = some .stable) &&
        (Token.balanceOf (.ofNumber 2) (.account 1) c).toOption == some 66) = true := by
    decide +kernel
  obtain ⟨c, hCourse, hHolds⟩ := Action.exists_course (fun _ _ _ => Chain.steady_of_keepsRate) hEnd
  simp only [Bool.and_eq_true, decide_eq_true_eq, beq_iff_eq] at hHolds
  obtain ⟨⟨⟨hPool, hBuilt⟩, hUnit⟩, hOwns⟩ := hHolds
  obtain ⟨s, hBind, hRates⟩ := (Option.any_eq_true _ _).1 hPool
  simp only [Bool.and_eq_true, beq_iff_eq] at hRates
  obtain ⟨y, hy, hPick⟩ := Option.bind_eq_some_iff.1 hBind
  obtain rfl := (Storage.pick_eq_some_iff y s).1 hPick
  have hShares := Result.of_toOption hOwns
  obtain ⟨⟨held, issued, hHeld, hIssued, hCovers⟩, hSubmit, hMidst⟩ :=
    hCourse.fixed_rate_solvent hy hBuilt hRates.1 hUnit
  exact ⟨c, s, held, issued, hCourse, hy, hBuilt, hRates.1, hUnit, hRates.2, hShares, hHeld,
    hIssued, hCovers, hSubmit _ _ hShares 66 (Nat.le_refl 66),
    hMidst 0 c .begun _ _ hShares 40 (by decide)⟩

end Solvency

end Treasury
