import Treasury.Proofs.HonouredQuotes

/-! Quotes throughout a run. Adapters that were set up for a router's stable token and custody
contract are fair at all times: between the calls that accounts make, and in the middle of them,
when a router deposits and withdraws. So they honour their quotes, and the router never turns down
what they do. -/
namespace Treasury

open Exec Chain

/-- The adapter at `x` was set up for the stable token at `t` and the custody contract at `k`, and
its pool is at `p`. A wrapped-vault adapter and its vault were constructed when they were
deployed. -/
inductive Chain.Bound (c : Chain) (t k x : Address) : Address → Prop where
  | fixedRate {s : Strategy.FixedRate} (hx : c.contract? x = some (.fixedRate s))
      (hStable : s.stable = some t) (hCustody : s.custody = some k) : Bound c t k x x
  | wrapped {s : Strategy.Wrapped} {v : Address} (hx : c.contract? x = some (.wrapped s))
      (hStable : s.stable = some t) (hCustody : s.custody = some k) (hVault : s.vault = some v)
      (hBuilt : x ∉ c.blank) (hVaultBuilt : v ∉ c.blank) : Bound c t k x v

/-- The moments of a run of accounts: between calls, and in the middle of a call of a user. There
value has flowed, and contracts may have let others take tokens of theirs and not have ended that
yet. -/
inductive Chain.Moment (Kept : Chain → Prop) (user : Address) : Chain → Prop where
  | reached {c : Chain} (hRun : Run Address.IsAccount Kept c) : Moment Kept user c
  | flowed {c c' : Chain} (h : Moment Kept user c) (hFlow : Flow user c c') : Moment Kept user c'
  | lent {c c' : Chain} {t lender spender : Address} {n : Amount} (h : Moment Kept user c)
      (hLender : c.Lends lender) (hAllow : c.Moves t (.approve lender spender n) c') :
      Moment Kept user c'

namespace Chain.Bound

variable {c c' : Chain} {t k x p : Address}

/-- The vault of a wrapped-vault adapter holds what the adapter deals in. -/
theorem offers (h : c.Bound t k x p) (hMatched : c.Matched) : c.Offers t k x p := by
  cases h with
  | fixedRate hx hStable hCustody => exact .fixedRate hx hStable hCustody
  | wrapped hx hStable hCustody hVault hBuilt hVaultBuilt =>
    obtain ⟨y, hy, hAsset⟩ := hMatched _ _ _ hx hVault hBuilt hVaultBuilt
    exact .wrapped hx hStable hCustody hVault hy (hAsset.trans hStable)

/-- A pool that is registered with the adapter is the adapter's. -/
theorem eq_pool (h : c.Bound t k x p) {pool : Address} (hServes : c.Serves x pool) : p = pool := by
  cases h with
  | fixedRate hx => exact hServes.eq_of_fixedRate (kind?_of_contract? hx)
  | wrapped hx _ _ hVault hBuilt =>
    rcases hServes with hPool | ⟨hBlank, -⟩
    · rw [pool?, hx] at hPool
      exact Option.some.inj (hVault.symm.trans hPool)
    · exact absurd hBlank hBuilt

end Chain.Bound

/-- What holds at all moments: what is listed for a pool serves it, no contract stands where an
account is, and vaults hold what wrapped-vault adapters deal in, and enough of it for their
shares. -/
structure Chain.Ordered (c : Chain) : Prop where
  matched : c.Matched
  listed : c.Listed
  accounts : ∀ d, c.kind? (.account d) = none
  covers : ∀ v t, c.Vault v t → v ∉ c.blank → c.Covers v t

namespace Chain.Ordered

variable {c c' : Chain} {actor t k x p : Address}

/-- Value flows on behalf of an account, or of a contract that lends. -/
theorem flow (h : c.Ordered) (hActor : actor.IsAccount ∨ c.Lends actor)
    (hFlow : Flow actor c c') : c'.Ordered where
  matched := h.matched.of_terms hFlow.blank fun b _ => hFlow.terms? b
  listed := h.listed.flow hFlow
  accounts d := (hFlow.kind? _).trans (h.accounts d)
  covers v t hVault hBuilt := by
    have hBefore : c.Vault v t :=
      ⟨(hFlow.terms? v).symm.trans hVault.terms, hFlow.kind? t ▸ hVault.token⟩
    have hOther : actor ≠ v := by
      rcases hActor with ⟨d, rfl⟩ | hLends
      · rintro rfl
        have hKind := hBefore.kind
        simp [h.accounts d] at hKind
      · exact hBefore.ne_of_lender hLends.lender
    exact hFlow.covers hOther hBefore (h.covers v t hBefore (hFlow.blank ▸ hBuilt))

/-- At all moments, an adapter that was set up for a stable token is fair. -/
theorem fair (h : c.Ordered) (hUnit : c.kind? t = some .stable) (hBound : c.Bound t k x p) :
    c.Fair t k x p where
  unit := hUnit
  offers := hBound.offers h.matched
  backed hKind := by
    cases hBound with
    | fixedRate hx => simp [kind?_of_contract? hx, Contract.kind] at hKind
    | wrapped hx hStable _ hVault hBuilt hVaultBuilt =>
      obtain ⟨y, hy, hAsset⟩ := h.matched _ _ _ hx hVault hBuilt hVaultBuilt
      exact (h.covers p t (.of_contract hy (hAsset.trans hStable) hUnit) hVaultBuilt).enough

/-- At all moments, a registered pool whose adapter was set up for a stable token is the adapter's,
and the adapter is fair. -/
theorem registered (h : c.Ordered) (hUnit : c.kind? t = some .stable) {r pool : Address}
    {s : Router.State} {config : Pool.Config} (hs : c.contract? r = some (.router s))
    (hGet : s.registry.get? pool = some config) (hBound : c.Bound t k config.adapter p) :
    c.Fair t k config.adapter config.pool := by
  have hLists := h.listed r _ hs
  have hServes := hLists.registered pool config hGet
  rw [hLists.sound.keyed pool config hGet, ← hBound.eq_pool hServes]
  exact h.fair hUnit hBound

end Chain.Ordered

/-- Between calls of accounts, all is in order. -/
theorem Run.ordered {Kept : Chain → Prop} {c : Chain} (h : Run Address.IsAccount Kept c) :
    c.Ordered where
  matched := h.matched
  listed := h.listed
  accounts := h.account_free
  covers _ _ := h.covers

/-- In the middle of a call it is, too. -/
theorem Chain.Moment.ordered {Kept : Chain → Prop} {user : Address} {c : Chain}
    (h : c.Moment Kept user) (hUser : user.IsAccount) : c.Ordered := by
  induction h with
  | reached hRun => exact hRun.ordered
  | flowed _ hFlow ih => exact ih.flow (.inl hUser) hFlow
  | lent _ hLender hAllow ih => exact ih.flow (.inr hLender) (.trade (.allowed hAllow))

end Treasury
