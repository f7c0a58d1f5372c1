import Treasury.Proofs.Moves
import Treasury.Custody.Keeping
import Treasury.Strategy.Execution

/-! Deals and trades: what calls do to the books of tokens while every contract keeps its settings.
A deal happens on behalf of a user, who moves tokens of its own. Contracts move tokens too, but only
as their kind allows: adapters, yield vaults and routers collect what they are allowed to, and pools
issue shares and pay for them. In a trade the desk (routers and custody contracts) gives away what
it holds, too. -/
namespace Treasury

open Token (Move Ledger)

namespace Token.Ledger

/-- Destroy units of the owner on behalf of the initiator, who needs an allowance unless it is the
owner. -/
def burnFrom (l : Ledger) (initiator owner : Address) (n : Amount) : Result Ledger := do
  let spent ← if initiator = owner then pure l else l.spendAllowance owner initiator n
  spent.burn owner n

variable {l l' : Ledger} {initiator owner self : Address} {n : Amount}

/-- Owners need no allowance to have their own units destroyed. -/
theorem burnFrom_self : l.burnFrom owner owner n = l.burn owner n := by
  rw [burnFrom, if_pos rfl, pure_bind]

theorem burnFrom_spec (h : l.burnFrom initiator owner n = .ok l') :
    (∀ a, l'.balanceOf a + (if a = owner then n else 0) = l.balanceOf a) ∧
      (∀ o s, l'.allowance o s +
        (if o = owner ∧ s = initiator ∧ initiator ≠ owner then n else 0) = l.allowance o s) ∧
      l'.supply + n = l.supply := by
  by_cases hSelf : initiator = owner
  · simp only [burnFrom, hSelf, if_true, pure_bind] at h
    obtain ⟨hLess, hAllow, hSupply⟩ := burn_spec h
    refine ⟨hLess, fun o s => ?_, hSupply⟩
    simp only [hSelf, ne_eq, not_true_eq_false, and_false, if_false, allowance, hAllow]
    rfl
  · simp only [burnFrom, hSelf, if_false, Result.bind_eq_ok] at h
    obtain ⟨spent, hSpend, hBurn⟩ := h
    obtain ⟨hLess, hAllow, hSupply⟩ := burn_spec hBurn
    obtain ⟨hSpent, hBalances, hSupply'⟩ := spendAllowance_spec hSpend
    refine ⟨fun a => ?_, fun o s => ?_, hSupply.trans hSupply'⟩
    · rw [hLess a, balanceOf, hBalances, balanceOf]
    · rw [← hSpent o s]
      simp only [ne_eq, hSelf, not_false_eq_true, and_true, allowance, hAllow]

theorem takeShares_spec (h : Strategy.takeShares self owner n l = .ok l') :
    (∀ a, l'.balanceOf a + (if a = owner then n else 0) = l.balanceOf a) ∧
      (∀ o s, l'.allowance o s + (if o = owner ∧ s = self then n else 0) = l.allowance o s) ∧
      l'.supply + n = l.supply := by
  simp only [Strategy.takeShares, Result.bind_eq_ok] at h
  obtain ⟨spent, hSpend, hBurn⟩ := h
  obtain ⟨hLess, hAllow, hSupply⟩ := burn_spec hBurn
  obtain ⟨hSpent, hBalances, hSupply'⟩ := spendAllowance_spec hSpend
  refine ⟨fun a => ?_, fun o s => ?_, hSupply.trans hSupply'⟩
  · rw [hLess a, balanceOf, hBalances, balanceOf]
  · rw [← hSpent o s, allowance, hAllow, allowance]

end Token.Ledger

namespace Chain

/-- Those who make calls while the user's call runs: the user, and contracts. -/
def Acts (c : Chain) (user a : Address) : Prop := a = user ∨ c.kind? a ≠ none

/-- Those from whom a contract collects: the ones who act, and whomever a share token charges. A
router believes its share token about who that is. -/
def Payer (c : Chain) (user collector owner : Address) : Prop :=
  c.Acts user owner ∨
    ∃ s, c.contract? collector = some (.router s) ∧ s.shareToken = some user

/-- The contracts that give tokens away: routers and custody contracts. -/
def Desk (c : Chain) (a : Address) : Prop :=
  c.kind? a = some .router ∨ c.kind? a = some .custody

/-- The contracts that let others take tokens of theirs for a while. -/
def Lends (c : Chain) (a : Address) : Prop :=
  c.kind? a = some .router ∨ c.kind? a = some .wrapped

/-- The shares that the pool at `x` issues for an amount of the token at `t`. -/
inductive Issues (c : Chain) (x t : Address) (n shares : Amount) : Prop where
  | fixedRate {s : Strategy.FixedRate} (hPool : c.contract? x = some (.fixedRate s))
      (hStable : s.stable = some t) (hShares : Rate.sharesForDeposit n s.rate = .ok shares)
  | synthetic {s : Strategy.Synthetic} {due : Amount}
      (hPool : c.contract? x = some (.synthetic s)) (hStable : s.stable = some t)
      (hDue : Rate.sharesForDeposit n s.rate = .ok due) (hShares : s.executed due = .ok shares)
  | yieldVault {v : Yield.Vault} (hPool : c.contract? x = some (.yieldVault v))
      (hAsset : v.asset = some t) (hShares : Yield.previewDeposit x n c = .ok shares)

/-- The amount of the token at `t` that the pool at `x` pays for shares. -/
inductive Pays (c : Chain) (x t : Address) (shares n : Amount) : Prop where
  | fixedRate {s : Strategy.FixedRate} (hPool : c.contract? x = some (.fixedRate s))
      (hStable : s.stable = some t) (hPaid : Rate.assetsForShares shares s.rate = .ok n)
  | synthetic {s : Strategy.Synthetic} {due : Amount}
      (hPool : c.contract? x = some (.synthetic s)) (hStable : s.stable = some t)
      (hDue : Rate.assetsForShares shares s.rate = .ok due) (hPaid : s.executed due = .ok n)
  | yieldVault {v : Yield.Vault} (hPool : c.contract? x = some (.yieldVault v))
      (hAsset : v.asset = some t) (hPaid : Yield.previewRedeem x shares c = .ok n)

/-- How the pool at `x` takes shares back. -/
inductive Takes (c : Chain) (user x : Address) (shares : Amount) :
    (Ledger → Result Ledger) → Prop where
  | adapter {owner : Address} (hOwner : c.Acts user owner) :
      Takes c user x shares (Strategy.takeShares x owner shares)
  | vault {caller owner : Address} (hCaller : caller = user ∨ c.kind? caller = some .wrapped) :
      Takes c user x shares (·.burnFrom caller owner shares)

variable {c c' : Chain} {user a : Address}

theorem acts_user (c : Chain) (user : Address) : c.Acts user user := .inl rfl

theorem acts_of_contract {x : Contract} (h : c.contract? a = some x) : c.Acts user a :=
  .inr (by simp [kind?_of_contract? h])

theorem Acts.payer (h : c.Acts user a) (collector : Address) : c.Payer user collector a := .inl h

theorem Acts.alike (h : c.Acts user a) (hAlike : Alike c c') : c'.Acts user a := by
  rw [Acts, hAlike.kind?]
  exact h

theorem Desk.acts (h : c.Desk a) : c.Acts user a := by
  refine .inr ?_
  rcases h with h | h <;> simp [h]

theorem Lends.acts (h : c.Lends a) : c.Acts user a := by
  refine .inr ?_
  rcases h with h | h <;> simp [h]

theorem acts_of_lender (h : c.Desk a ∨ c.kind? a = some .wrapped) : c.Acts user a := by
  rcases h with hDesk | hWrapped
  · exact hDesk.acts
  · exact .inr (by simp [hWrapped])

theorem Lends.lender (h : c.Lends a) : c.Desk a ∨ c.kind? a = some .wrapped :=
  h.imp_left .inl

theorem Lends.alike (h : c.Lends a) (hAlike : Alike c c') : c'.Lends a := by
  rw [Lends, hAlike.kind?]
  exact h

end Chain

/-- What happens on behalf of a user while every contract keeps its settings. Pools collect and pay,
and wrapped-vault adapters lend what they hand on; other contracts give or lend only if they may. -/
inductive Deal (May : Chain → Address → Prop) (user : Address) : Chain → Chain → Prop where
  | refl (c : Chain) : Deal May user c c
  | trans {c c₁ c' : Chain} (hFirst : Deal May user c c₁) (hThen : Deal May user c₁ c') :
      Deal May user c c'
  /-- The user, or a contract that may, gives tokens away. -/
  | sent {c c' : Chain} {t giver taker : Address} {n : Amount}
      (hGiver : giver = user ∨ May c giver) (hMove : c.Moves t (.transfer giver taker n) c') :
      Deal May user c c'
  /-- The user lets a spender take tokens of its own. -/
  | allowed {c c' : Chain} {t spender : Address} {n : Amount}
      (hMove : c.Moves t (.approve user spender n) c') : Deal May user c c'
  /-- The user takes what an owner has allowed it to. -/
  | drawn {c c' : Chain} {t owner taker : Address} {n : Amount}
      (hMove : c.Moves t (.transferFrom user owner taker n) c') : Deal May user c c'
  /-- A contract takes what a payer has allowed it to. -/
  | collected {c c' : Chain} {t x owner : Address} {n : Amount} (hOwner : c.Payer user x owner)
      (hCollector : c.kind? x ≠ none) (hMove : c.Moves t (.transferFrom x owner x n) c') :
      Deal May user c c'
  /-- A contract lets another take tokens of its own, but only for the time of a deal. -/
  | lent {c c₁ c₂ c' : Chain} {t lender spender : Address} {n : Amount}
      (hLender : May c lender ∨ c.kind? lender = some .wrapped)
      (hAllow : c.Moves t (.approve lender spender n) c₁) (hDeal : Deal May user c₁ c₂)
      (hEnd : c₂.Moves t (.approve lender spender 0) c') : Deal May user c c'
  /-- A pool collects an amount and issues shares for it. -/
  | joined {c c₁ c' : Chain} {x t owner holder : Address} {n shares : Amount}
      (hPrice : c.Issues x t n shares) (hOwner : c.Payer user x owner)
      (hMove : c.Moves t (.transferFrom x owner x n) c₁)
      (hMint : c₁.PoolKeeps x (·.mint holder shares) c') : Deal May user c c'
  /-- A pool takes shares back and pays for them. -/
  | left {c c₁ c' : Chain} {x t receiver : Address} {shares n : Amount}
      {act : Ledger → Result Ledger} (hPrice : c.Pays x t shares n)
      (hTakes : c.Takes user x shares act) (hTake : c.PoolKeeps x act c₁)
      (hMove : c₁.Moves t (.transfer x receiver n) c') : Deal May user c c'

/-- A deal in which the desk may give and lend. -/
abbrev Trade (user : Address) : Chain → Chain → Prop := Deal Chain.Desk user

/-- A deal changes nothing but books. -/
theorem Deal.alike {May : Chain → Address → Prop} {user : Address} {c c' : Chain}
    (h : Deal May user c c') : c.Alike c' := by
  induction h with
  | refl c => exact .refl c
  | trans _ _ ihFirst ihThen => exact ihFirst.trans ihThen
  | sent _ hMove => exact hMove.alike
  | allowed hMove => exact hMove.alike
  | drawn hMove => exact hMove.alike
  | collected _ _ hMove => exact hMove.alike
  | lent _ hAllow _ hEnd ih => exact (hAllow.alike.trans ih).trans hEnd.alike
  | joined _ _ hMove hMint => exact hMove.alike.trans hMint.alike
  | left _ _ hTake hMove => exact hTake.alike.trans hMove.alike

/-- A deal in which less may be given is a deal in which more may be. -/
theorem Deal.mono {May May' : Chain → Address → Prop} {user : Address} {c c' : Chain}
    (h : Deal May user c c') (hMay : ∀ c a, May c a → May' c a) : Deal May' user c c' := by
  induction h with
  | refl c => exact .refl c
  | trans _ _ ihFirst ihThen => exact .trans ihFirst ihThen
  | sent hGiver hMove => exact .sent (hGiver.imp_right (hMay _ _)) hMove
  | allowed hMove => exact .allowed hMove
  | drawn hMove => exact .drawn hMove
  | collected hOwner hCollector hMove => exact .collected hOwner hCollector hMove
  | lent hLender hAllow _ hEnd ih => exact .lent (hLender.imp_left (hMay _ _)) hAllow ih hEnd
  | joined hPrice hOwner hMove hMint => exact .joined hPrice hOwner hMove hMint
  | left hPrice hTakes hTake hMove => exact .left hPrice hTakes hTake hMove

namespace Chain

variable {May : Chain → Address → Prop} {user : Address} {c c' : Chain} {x caller : Address}
  {n shares : Amount}

/-- A caller deposits an amount with the adapter at `x`, which issues shares of its own for it, or
hands it on to a pool that does. -/
inductive Lodges (c : Chain) (x caller : Address) (n : Amount) (c' : Chain) : Prop where
  | own {t holder : Address} {shares : Amount} {c₁ : Chain} (hPrice : c.Issues x t n shares)
      (hMove : c.Moves t (.transferFrom x caller x n) c₁)
      (hMint : c₁.PoolKeeps x (·.mint holder shares) c') : Lodges c x caller n c'
  | passed {b p t holder : Address} {shares : Amount} {c₁ c₂ c₃ c₄ : Chain}
      (hKind : c.kind? x = some .wrapped) (hMove : c.Moves b (.transferFrom x caller x n) c₁)
      (hAllow : c₁.Moves b (.approve x p n) c₂) (hPrice : c₂.Issues p t n shares)
      (hHand : c₂.Moves t (.transferFrom p x p n) c₃)
      (hMint : c₃.PoolKeeps p (·.mint holder shares) c₄)
      (hEnd : c₄.Moves b (.approve x p 0) c') : Lodges c x caller n c'

/-- A caller hands shares in to the adapter at `x`, which pays for them, or has a pool pay for
them that has issued them. -/
inductive Cashes (c : Chain) (x caller : Address) (shares : Amount) (c' : Chain) : Prop where
  | own {t : Address} {n : Amount} {c₁ : Chain} (hPrice : c.Pays x t shares n)
      (hTake : c.PoolKeeps x (Strategy.takeShares x caller shares) c₁)
      (hMove : c₁.Moves t (.transfer x caller n) c') : Cashes c x caller shares c'
  | passed {p t : Address} {n : Amount} {c₁ c₂ : Chain} (hKind : c.kind? x = some .wrapped)
      (hGive : c.Moves p (.transferFrom x caller x shares) c₁) (hPrice : c₁.Pays p t shares n)
      (hTake : c₁.PoolKeeps p (·.burnFrom x x shares) c₂)
      (hMove : c₂.Moves t (.transfer p caller n) c') : Cashes c x caller shares c'

theorem Lodges.deal (h : c.Lodges x caller n c') (hCaller : c.Acts user caller) :
    Deal May user c c' := by
  cases h with
  | own hPrice hMove hMint => exact .joined hPrice (hCaller.payer x) hMove hMint
  | @passed b p t holder shares c₁ c₂ c₃ c₄ hKind hMove hAllow hPrice hHand hMint hEnd =>
    have hKind₁ : c₁.kind? x = some .wrapped := (hMove.alike.kind? x).trans hKind
    have hActs : c₂.Acts user x := .inr (by simp [hAllow.alike.kind?, hKind₁])
    exact .trans (.collected (hCaller.payer x) (by simp [hKind]) hMove)
      (.lent (.inr hKind₁) hAllow (.joined hPrice (hActs.payer p) hHand hMint) hEnd)

theorem Cashes.deal (h : c.Cashes x caller shares c') (hCaller : c.Acts user caller) :
    Deal May user c c' := by
  cases h with
  | own hPrice hTake hMove => exact .left hPrice (.adapter hCaller) hTake hMove
  | passed hKind hGive hPrice hTake hMove =>
    exact .trans (.collected (hCaller.payer x) (by simp [hKind]) hGive)
      (.left hPrice (.vault (.inr ((hGive.alike.kind? x).trans hKind))) hTake hMove)

end Chain

open Exec Chain

section Calls

variable {May : Chain → Address → Prop} {user self caller receiver owner : Address} {w : World}
  {n shares : Amount}

namespace Yield

/-- A vault takes its asset and issues shares, as many as it quotes. -/
theorem after_deposit_moves : After (deposit self caller n receiver) w fun m v => ∃ y t c,
    w.chain.contract? self = some (.yieldVault y) ∧ y.asset = some t ∧ n ≠ 0 ∧
      previewDeposit self n w.chain = .ok m ∧
      w.chain.Moves t (.transferFrom self caller self n) c ∧
      c.PoolKeeps self (·.mint receiver m) v.chain := by
  simp only [deposit, after_entering, after_bind, after_view, after_result, View.callee_eq_ok,
    ensure_eq_ok, forall_const, known_eq_ok, after_update, after_pure]
  intro y hy hAmount m hShares _ t hAsset
  refine Token.after_transferFrom.mono fun _ u hTake y' _ hy' hMint => ?_
  obtain ⟨l, hl, ⟨⟩⟩ := Result.bind_eq_ok.1 hMint
  exact ⟨y, t, u.chain, hy, hAsset, hAmount, hShares, hTake, _, _, hy', .yieldVault hl, rfl⟩

/-- A vault takes shares of an owner back and pays what it quotes. -/
theorem after_redeem_moves : After (redeem self caller shares receiver owner) w fun m v => ∃ y t c,
    w.chain.contract? self = some (.yieldVault y) ∧ y.asset = some t ∧
      previewRedeem self shares w.chain = .ok m ∧
      w.chain.PoolKeeps self (·.burnFrom caller owner shares) c ∧
      c.Moves t (.transfer self receiver m) v.chain := by
  simp only [redeem, after_entering, after_bind, after_view, after_result, View.callee_eq_ok,
    ensure_eq_ok, forall_const, known_eq_ok, after_update, after_pure]
  intro y hy _ m hPaid y' left hy' hTake t hAsset
  refine Token.after_transfer.mono fun _ u hMove => ?_
  obtain ⟨l, hl, rfl⟩ : ∃ l, y'.ledger.burnFrom caller owner shares = .ok l ∧
      { y' with ledger := l } = left := by
    by_cases hSelf : caller = owner
    · simp only [hSelf, if_true, pure_bind] at hTake
      obtain ⟨l, hBurn, ⟨⟩⟩ := Result.bind_eq_ok.1 hTake
      exact ⟨l, by rwa [hSelf, Ledger.burnFrom_self], rfl⟩
    · simp only [hSelf, if_false] at hTake
      obtain ⟨spent, hSpend, hRest⟩ := Result.bind_eq_ok.1 hTake
      obtain ⟨l, hBurn, ⟨⟩⟩ := Result.bind_eq_ok.1 hRest
      refine ⟨l, ?_, rfl⟩
      simp only [Ledger.burnFrom, hSelf, if_false]
      exact Result.bind_eq_ok.2 ⟨spent, hSpend, hBurn⟩
  exact ⟨y, t, _, hy, hAsset, hPaid, ⟨_, _, hy', .yieldVault hl, rfl⟩, hMove⟩

theorem after_deposit (hCaller : w.chain.Acts user caller) :
    After (deposit self caller n receiver) w fun _ v => Deal May user w.chain v.chain := by
  refine after_deposit_moves.mono ?_
  rintro shares v ⟨y, t, c, hy, hAsset, -, hShares, hMove, hMint⟩
  exact .joined (.yieldVault hy hAsset hShares) (hCaller.payer self) hMove hMint

theorem after_redeem (hCaller : caller = user ∨ w.chain.kind? caller = some .wrapped) :
    After (redeem self caller shares receiver owner) w fun _ v =>
      Deal May user w.chain v.chain := by
  refine after_redeem_moves.mono ?_
  rintro paid v ⟨y, t, c, hy, hAsset, hPaid, hTake, hMove⟩
  exact .left (.yieldVault hy hAsset hPaid) (.vault hCaller) hTake hMove

end Yield

theorem Yield.after_accrueYield (hCaller : w.chain.Acts user caller) :
    After (Yield.accrueYield self caller n) w fun _ v => Deal May user w.chain v.chain := by
  simp only [Yield.accrueYield, after_entering, after_bind, after_view, after_result,
    View.callee_eq_ok, ensure_eq_ok, forall_const, known_eq_ok]
  intro vault hVault _ asset _
  refine Token.after_transferFrom.mono fun _ u hMove => ?_
  exact .collected (hCaller.payer self) (by simp [kind?_of_contract? hVault]) hMove

namespace Strategy

/-- A fixed-rate adapter collects the amount, and issues the custody contract that it knows shares
for it. -/
theorem FixedRate.after_deposit_moves {s : FixedRate} :
    After (s.deposit self caller n) w fun minted v => ∃ t custodian shares c,
      n ≠ 0 ∧ s.stable = some t ∧ s.custody = some custodian ∧
        Rate.sharesForDeposit n s.rate = .ok shares ∧ minted = ⟨self, shares⟩ ∧
        w.chain.Moves t (.transferFrom self caller self n) c ∧
        c.PoolKeeps self (·.mint custodian shares) v.chain := by
  simp only [FixedRate.deposit, after_bind, after_result, ensure_eq_ok, forall_const, known_eq_ok,
    after_update, after_pure]
  intro hAmount _ shares hShares _ t hStable
  refine Token.after_transferFrom.mono fun _ u hMove custody hCustody s' _ hPool' hMint => ?_
  obtain ⟨l, hl, ⟨⟩⟩ := Result.bind_eq_ok.1 hMint
  exact ⟨t, custody, shares, u.chain, hAmount, hStable, hCustody, hShares, rfl, hMove,
    _, _, hPool', .fixedRate hl, rfl⟩

theorem FixedRate.after_deposit_lodges {s : FixedRate}
    (hPool : w.chain.contract? self = some (.fixedRate s)) :
    After (s.deposit self caller n) w fun _ v => w.chain.Lodges self caller n v.chain := by
  refine FixedRate.after_deposit_moves.mono ?_
  rintro _ v ⟨t, custodian, shares, c, -, hStable, -, hShares, -, hMove, hMint⟩
  exact .own (.fixedRate hPool hStable hShares) hMove hMint

/-- A fixed-rate adapter takes shares back, and pays for them at its rate. -/
theorem FixedRate.after_withdraw_moves {s : FixedRate} :
    After (s.withdraw self caller shares) w fun paid v => ∃ t c,
      s.stable = some t ∧ Rate.assetsForShares shares s.rate = .ok paid ∧
        w.chain.PoolKeeps self (takeShares self caller shares) c ∧
        c.Moves t (.transfer self caller paid) v.chain := by
  simp only [FixedRate.withdraw, after_bind, after_view, after_result, ensure_eq_ok, forall_const,
    known_eq_ok, after_update, after_pure]
  intro _ n hPaid t hStable _ _ _ s' _ hPool' hTake
  refine Token.after_transfer.mono fun _ u hMove => ?_
  obtain ⟨l, hl, ⟨⟩⟩ := Result.bind_eq_ok.1 hTake
  exact ⟨t, _, hStable, hPaid, ⟨_, _, hPool', .fixedRate hl, rfl⟩, hMove⟩

theorem FixedRate.after_withdraw_cashes {s : FixedRate}
    (hPool : w.chain.contract? self = some (.fixedRate s)) :
    After (s.withdraw self caller shares) w fun _ v =>
      w.chain.Cashes self caller shares v.chain := by
  refine FixedRate.after_withdraw_moves.mono ?_
  rintro n v ⟨t, c, hStable, hPaid, hTake, hMove⟩
  exact .own (.fixedRate hPool hStable hPaid) hTake hMove

theorem FixedRate.after_fund (hCaller : w.chain.Acts user caller) :
    After (FixedRate.fund self caller n) w fun _ v => Deal May user w.chain v.chain := by
  simp only [FixedRate.fund, after_entering, after_bind, after_view, after_result,
    View.callee_eq_ok, ensure_eq_ok, forall_const, known_eq_ok]
  intro s hPool _ t _
  refine Token.after_transferFrom.mono fun _ u hMove => ?_
  exact .collected (hCaller.payer self) (by simp [kind?_of_contract? hPool]) hMove

/-- A synthetic adapter takes shares back, pays for them what it is set to, and may report more. -/
theorem Synthetic.after_withdraw_moves {s : Synthetic} :
    After (s.withdraw self caller shares) w fun reported v => ∃ t due paid c,
      s.stable = some t ∧ Rate.assetsForShares shares s.rate = .ok due ∧
        s.executed due = .ok paid ∧ Amount.add paid s.reportBonus = .ok reported ∧
        w.chain.PoolKeeps self (takeShares self caller shares) c ∧
        c.Moves t (.transfer self caller paid) v.chain := by
  simp only [Synthetic.withdraw, after_bind, after_view, after_result, ensure_eq_ok, forall_const,
    known_eq_ok, after_update]
  intro _ due hDue n hPaid t hStable _ _ _ s' _ hPool' hTake
  refine Token.after_transfer.mono fun _ u hMove reported hReport => ?_
  obtain ⟨l, hl, ⟨⟩⟩ := Result.bind_eq_ok.1 hTake
  exact ⟨t, due, n, _, hStable, hDue, hPaid, hReport, ⟨_, _, hPool', .synthetic hl, rfl⟩, hMove⟩

theorem Synthetic.after_withdraw_cashes {s : Synthetic}
    (hPool : w.chain.contract? self = some (.synthetic s)) :
    After (s.withdraw self caller shares) w fun _ v =>
      w.chain.Cashes self caller shares v.chain := by
  refine Synthetic.after_withdraw_moves.mono ?_
  rintro _ v ⟨t, due, paid, c, hStable, hDue, hPaid, -, hTake, hMove⟩
  exact .own (.synthetic hPool hStable hDue hPaid) hTake hMove

/-- A wrapped-vault adapter collects the amount, and lets its vault take it on and issue the custody
contract that the adapter knows shares for it. -/
theorem Wrapped.after_deposit_moves {s : Wrapped} :
    After (s.deposit self caller n) w fun minted v => ∃ stable vault custodian y t c₁ c₂ c₃ c₄,
      n ≠ 0 ∧ s.custody = some custodian ∧ minted.pool = vault ∧
        w.chain.Moves stable (.transferFrom self caller self n) c₁ ∧
        c₁.Moves stable (.approve self vault n) c₂ ∧
        c₂.contract? vault = some (.yieldVault y) ∧ y.asset = some t ∧
        Yield.previewDeposit vault n c₂ = .ok minted.shares ∧
        c₂.Moves t (.transferFrom vault self vault n) c₃ ∧
        c₃.PoolKeeps vault (·.mint custodian minted.shares) c₄ ∧
        c₄.Moves stable (.approve self vault 0) v.chain := by
  simp only [Wrapped.deposit, after_bind, after_result, ensure_eq_ok, forall_const, known_eq_ok,
    after_pure]
  intro hAmount _ vault _ stable _
  refine Token.after_transferFrom.mono fun _ u₁ hMove => ?_
  refine Token.after_approve.mono fun _ u₂ hAllow custodian hCustody => ?_
  refine Yield.after_deposit_moves.mono ?_
  rintro shares u₃ ⟨y, t, c, hy, hAsset, -, hShares, hHand, hMint⟩
  refine Token.after_approve.mono fun _ u₄ hEnd => ?_
  exact ⟨stable, vault, custodian, y, t, _, _, c, _, hAmount, hCustody, rfl, hMove, hAllow, hy,
    hAsset, hShares, hHand, hMint, hEnd⟩

theorem Wrapped.after_deposit_lodges {s : Wrapped}
    (hAdapter : w.chain.contract? self = some (.wrapped s)) :
    After (s.deposit self caller n) w fun _ v => w.chain.Lodges self caller n v.chain := by
  refine Wrapped.after_deposit_moves.mono ?_
  rintro minted v ⟨_, _, _, y, t, _, _, _, _, -, -, -, hMove, hAllow, hy, hAsset, hShares, hHand,
    hMint, hEnd⟩
  exact .passed (kind?_of_contract? hAdapter) hMove hAllow (.yieldVault hy hAsset hShares) hHand
    hMint hEnd

/-- A wrapped-vault adapter takes shares of its vault, which takes them back and pays. -/
theorem Wrapped.after_withdraw_moves {s : Wrapped} :
    After (s.withdraw self caller shares) w fun paid v => ∃ vault y t c₁ c₂,
      w.chain.Moves vault (.transferFrom self caller self shares) c₁ ∧
        c₁.contract? vault = some (.yieldVault y) ∧ y.asset = some t ∧
        Yield.previewRedeem vault shares c₁ = .ok paid ∧
        c₁.PoolKeeps vault (·.burnFrom self self shares) c₂ ∧
        c₂.Moves t (.transfer vault caller paid) v.chain := by
  simp only [Wrapped.withdraw, after_bind, after_result, ensure_eq_ok, forall_const, known_eq_ok]
  intro _ vault _
  refine Token.after_transferFrom.mono fun _ u hGive => ?_
  refine Yield.after_redeem_moves.mono ?_
  rintro paid v ⟨y, t, c, hy, hAsset, hPaid, hTake, hMove⟩
  exact ⟨vault, y, t, _, c, hGive, hy, hAsset, hPaid, hTake, hMove⟩

theorem Wrapped.after_withdraw_cashes {s : Wrapped}
    (hAdapter : w.chain.contract? self = some (.wrapped s)) :
    After (s.withdraw self caller shares) w fun _ v =>
      w.chain.Cashes self caller shares v.chain := by
  refine Wrapped.after_withdraw_moves.mono ?_
  rintro paid v ⟨vault, y, t, c₁, c₂, hGive, hy, hAsset, hPaid, hTake, hMove⟩
  exact .passed (kind?_of_contract? hAdapter) hGive (.yieldVault hy hAsset hPaid) hTake hMove

/-- A withdrawal through an adapter of any kind. -/
theorem after_withdraw_cashes {adapter : Address} :
    After (Strategy.withdraw adapter caller shares) w fun _ v =>
      w.chain.Cashes adapter caller shares v.chain := by
  simp only [Strategy.withdraw, after_entering, after_bind, after_view, View.contract_eq_ok]
  intro x hx
  cases x with
  | fixedRate s => exact FixedRate.after_withdraw_cashes hx
  | synthetic s => exact Synthetic.after_withdraw_cashes hx
  | wrapped s => exact Wrapped.after_withdraw_cashes hx
  | stable | share | yieldVault | custody | router | registry | roles | ledger =>
    exact after_throw.2 trivial

theorem after_withdraw {adapter : Address} (hCaller : w.chain.Acts user caller) :
    After (Strategy.withdraw adapter caller shares) w fun _ v => Deal May user w.chain v.chain :=
  after_withdraw_cashes.mono fun _ _ hCashes => hCashes.deal hCaller

end Strategy

/-- A custody contract gives shares to whomever its router names. -/
theorem Custody.after_transferShares {pool recipient : Address} :
    After (Custody.transferShares self caller pool n recipient) w fun _ v =>
      (∃ q, w.chain.contract? self = some (.custody q) ∧ q.supports pool = true ∧
        q.router = some caller) ∧ w.chain.Moves pool (.transfer self recipient n) v.chain := by
  simp only [Custody.transferShares, Custody.requireRouter, after_entering, after_bind, after_view,
    after_result, View.callee_eq_ok, ensure_eq_ok, forall_const, after_emit]
  intro q hq hRouter hSupports _
  exact Token.after_transfer.mono fun _ u hMove => ⟨⟨q, hq, hSupports, hRouter⟩, hMove⟩

theorem Custody.trade_of_transferShares {q : Custody} {pool recipient : Address} {c c' : Chain}
    (hq : c.contract? self = some (.custody q))
    (hMove : c.Moves pool (.transfer self recipient n) c') : Trade user c c' :=
  .sent (.inr (.inr (kind?_of_contract? hq))) hMove

end Calls

end Treasury
