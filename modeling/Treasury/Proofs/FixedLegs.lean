import Treasury.Proofs.Additive
import Treasury.Proofs.Legs
import Treasury.Proofs.Swaps

/-! What a leg on a fixed-rate pool comes to. With all the measuring and all the allowances that are
given and ended, a deposit is that the pool takes stable and issues shares, and a withdrawal is that
the pool takes shares back and pays. Both are said as equivalences: a leg ends if and only if these
two changes can be made. -/
namespace Treasury

open Exec Chain
open Relation (Comp)

namespace Contract

variable {m : Token.Move} {y : Contract}

theorem keepBooks_stable {t : Token.Stable} :
    (Contract.stable t).keepBooks m.onStable m.onLedger = some (.ok y) ↔
      ∃ t', m.onStable t = .ok t' ∧ .stable t' = y := by
  simp only [keepBooks, Option.some.injEq, Result.bind_eq_ok]
  exact exists_congr fun _ => and_congr_right fun _ => ⟨Except.ok.inj, congrArg Except.ok⟩

theorem keepBooks_fixedRate {s : Strategy.FixedRate} :
    (Contract.fixedRate s).keepBooks m.onStable m.onLedger = some (.ok y) ↔
      ∃ l, m.onLedger s.ledger = .ok l ∧ .fixedRate { s with ledger := l } = y := by
  simp only [keepBooks, Option.some.injEq, Result.bind_eq_ok]
  exact exists_congr fun _ => and_congr_right fun _ => ⟨Except.ok.inj, congrArg Except.ok⟩

end Contract

namespace Chain

variable {c c' : Chain} {a p t : Address} {m : Token.Move}

/-- The stable token makes a move in its own way. -/
theorem moves_stable {u : Token.Stable} (hu : c.contract? t = some (.stable u)) :
    c.Moves t m c' ↔ ∃ u', m.onStable u = .ok u' ∧ c' = c.put t (.stable u') := by
  constructor
  · rintro ⟨old, new, hOld, hKeep, rfl⟩
    obtain rfl : Contract.stable u = old := Option.some.inj (hu.symm.trans hOld)
    obtain ⟨u', hMove, rfl⟩ := Contract.keepBooks_stable.1 hKeep
    exact ⟨u', hMove, rfl⟩
  · rintro ⟨u', hMove, rfl⟩
    exact ⟨_, .stable u', hu, Contract.keepBooks_stable.2 ⟨u', hMove, rfl⟩, rfl⟩

theorem ne_of_contracts {b : Address} {x y : Contract} (hx : c.contract? a = some x)
    (hy : c.contract? b = some y) (hNe : x ≠ y) : a ≠ b := by
  rintro rfl
  exact hNe (Option.some.inj (hx.symm.trans hy))

/-- A fixed-rate pool makes a move on its ledger. -/
theorem moves_fixedRate {s : Strategy.FixedRate} (hs : c.contract? p = some (.fixedRate s)) :
    c.Moves p m c' ↔
      ∃ l, m.onLedger s.ledger = .ok l ∧ c' = c.put p (.fixedRate { s with ledger := l }) := by
  constructor
  · rintro ⟨old, new, hOld, hKeep, rfl⟩
    obtain rfl : Contract.fixedRate s = old := Option.some.inj (hs.symm.trans hOld)
    obtain ⟨l, hMove, rfl⟩ := Contract.keepBooks_fixedRate.1 hKeep
    exact ⟨l, hMove, rfl⟩
  · rintro ⟨l, hMove, rfl⟩
    exact ⟨_, _, hs, Contract.keepBooks_fixedRate.2 ⟨l, hMove, rfl⟩, rfl⟩

end Chain

theorem Custody.poolBalance_eq {c : Chain} {k p : Address} {q : Custody} {x : Strategy.FixedRate}
    (hq : c.contract? k = some (.custody q)) (hx : c.contract? p = some (.fixedRate x)) :
    Custody.poolBalance k p c = .ok (x.ledger.balanceOf k) := by
  refine View.bind_eq_ok.2 ⟨q, View.callee_eq_ok.2 hq, ?_⟩
  rw [Token.balanceOf_eq k (books?_of_contract? hx), balance, books?_of_contract? hx]
  rfl

namespace Contract

/-- The stable token lets a taker take an amount from a lender. -/
inductive Lent (lender taker : Address) (n : Amount) : Contract → Contract → Prop where
  | intro {t t' : Token.Stable} (h : t.lend lender taker n = .ok t') :
      Lent lender taker n (.stable t) (.stable t')

/-- A fixed-rate pool issues shares to a keeper for an amount of a token. -/
inductive Issued (token keeper : Address) (n shares : Amount) : Contract → Contract → Prop where
  | intro {s : Strategy.FixedRate} {l : Token.Ledger} (hAmount : n ≠ 0)
      (hHealthy : s.paused = false) (hStable : s.stable = some token)
      (hKeeper : s.custody = some keeper) (hShares : Rate.sharesForDeposit n s.rate = .ok shares)
      (hSome : shares ≠ 0) (hMint : s.ledger.mint keeper shares = .ok l) :
      Issued token keeper n shares (.fixedRate s) (.fixedRate { s with ledger := l })

end Contract

namespace Strategy

variable {c c' : Chain} {self caller p : Address} {n : Amount} {s : FixedRate}
  {es : List (Address × Event)}

theorem FixedRate.ends_deposit {m : Minted} : Ends (s.deposit self caller n) c m c' es ↔
    ∃ shares t k c₁ s' l, n ≠ 0 ∧ s.paused = false ∧
      Rate.sharesForDeposit n s.rate = .ok shares ∧ shares ≠ 0 ∧ s.stable = some t ∧
      c.Moves t (.transferFrom self caller self n) c₁ ∧ s.custody = some k ∧
      c₁.contract? self = some (.fixedRate s') ∧ s'.ledger.mint k shares = .ok l ∧
      c₁.put self (.fixedRate { s' with ledger := l }) = c' ∧ ⟨self, shares⟩ = m ∧ [] = es := by
  simp only [deposit, ends_result_bind, ensure_eq_ok, known_eq_ok, Token.ends_transferFrom_bind,
    ends_update_bind, ends_pure, Result.bind_eq_ok]
  constructor
  · rintro ⟨_, hAmount, _, hHealthy, shares, hShares, _, hSome, t, ht, c₁, hTake, k, hk, s', _, hs',
      ⟨l, hMint, ⟨⟩⟩, hReport, hPut, hEs⟩
    exact ⟨shares, t, k, c₁, s', l, hAmount, hHealthy, hShares, hSome, ht, hTake, hk, hs', hMint,
      hPut, hReport, hEs⟩
  · rintro ⟨shares, t, k, c₁, s', l, hAmount, hHealthy, hShares, hSome, ht, hTake, hk, hs', hMint,
      hPut, hReport, hEs⟩
    exact ⟨(), hAmount, (), hHealthy, shares, hShares, (), hSome, t, ht, c₁, hTake, k, hk, s', _,
      hs', ⟨l, hMint, rfl⟩, hReport, hPut, hEs⟩

variable (h : c.contract? p = some (.fixedRate s))

include h

theorem ends_deposit_fixedRate {back : Router.Callback} [back.Adds] {locked : List Address}
    {m : Minted} : Ends (Strategy.deposit back locked p caller n) c m c' es ↔
      Ends (s.deposit p caller n) c m c' es := by
  simp only [Strategy.deposit]
  rw [@ends_entering _ _ _ _ _ _ _ _ _ (@Additive.bind _ _ _ _ _ fun x => by
    split <;> infer_instance), ends_view_bind]
  simp only [View.contract_eq_ok, h, Option.some.injEq, exists_eq_left']

end Strategy

namespace Wiring

/-- A deposit into a fixed-rate pool: the pool takes an amount of the router's stable, and issues
shares for it to the custody contract. -/
def Enters (w : Wiring) (p : Address) (n shares : Amount) : Chain → Chain → Prop :=
  Comp (Alters w.stable (Contract.Lent w.router p n))
    (Alters p (Contract.Issued w.stable w.custody n shares))

variable {w : Wiring} {c c' : Chain} {p : Address} {n shares : Amount} {u : Token.Stable}
  {x : Strategy.FixedRate}

theorem enters_iff (hu : c.contract? w.stable = some (.stable u))
    (hx : c.contract? p = some (.fixedRate x)) (hNe : p ≠ w.stable) :
    w.Enters p n shares c c' ↔ ∃ u' l, u.lend w.router p n = .ok u' ∧ n ≠ 0 ∧ x.paused = false ∧
      x.stable = some w.stable ∧ x.custody = some w.custody ∧
      Rate.sharesForDeposit n x.rate = .ok shares ∧ shares ≠ 0 ∧
      x.ledger.mint w.custody shares = .ok l ∧
      c' = (c.put w.stable (.stable u')).put p (.fixedRate { x with ledger := l }) := by
  constructor
  · rintro ⟨_, ⟨_, _, hOld, ⟨hLend⟩, rfl⟩, _, _, hPool, ⟨hAmount, hHealthy, hStable, hKeeper,
      hShares, hSome, hMint⟩, rfl⟩
    cases hu.symm.trans hOld
    rw [contract?_put_of_ne c _ hNe] at hPool
    cases hx.symm.trans hPool
    exact ⟨_, _, hLend, hAmount, hHealthy, hStable, hKeeper, hShares, hSome, hMint, rfl⟩
  · rintro ⟨u', l, hLend, hAmount, hHealthy, hStable, hKeeper, hShares, hSome, hMint, rfl⟩
    refine ⟨_, ⟨_, _, hu, ⟨hLend⟩, rfl⟩, _, _, ?_, ⟨hAmount, hHealthy, hStable, hKeeper, hShares,
      hSome, hMint⟩, rfl⟩
    rw [contract?_put_of_ne c _ hNe, hx]

end Wiring

namespace Chain

variable {c c' : Chain} {t p lender keeper : Address} {n shares : Amount} {u : Token.Stable}
  {x : Strategy.FixedRate}

/-- A lender's stable is taken by a fixed-rate pool that mints before the allowance is ended. -/
theorem lend_around_mint (hu : c.contract? t = some (.stable u))
    (hx : c.contract? p = some (.fixedRate x)) (hNe : p ≠ t) :
    (∃ c₁ c₂ x' l, c.Moves t (.approve lender p n) c₁ ∧
      c₁.Moves t (.transferFrom p lender p n) c₂ ∧ c₂.contract? p = some (.fixedRate x') ∧
      x'.ledger.mint keeper shares = .ok l ∧
      (c₂.put p (.fixedRate { x' with ledger := l })).Moves t (.approve lender p 0) c') ↔
    ∃ u' l, u.lend lender p n = .ok u' ∧ x.ledger.mint keeper shares = .ok l ∧
      c' = (c.put t (.stable u')).put p (.fixedRate { x with ledger := l }) := by
  have hAfter : ∀ v, (c.put t (.stable v)).contract? t = some (.stable v) :=
    fun v => contract?_put_self _ hu
  have hKept : ∀ v, (c.put t (.stable v)).contract? p = some (.fixedRate x) :=
    fun v => (contract?_put_of_ne c _ hNe).trans hx
  have hLast : ∀ v l, ((c.put t (.stable v)).put p (.fixedRate { x with ledger := l })).contract? t
      = some (.stable v) := fun v l => (contract?_put_of_ne _ _ hNe.symm).trans (hAfter v)
  simp only [moves_stable hu, Token.Stable.lend, Result.bind_eq_ok]
  constructor
  · rintro ⟨_, _, x', l, ⟨_, ⟨⟩, rfl⟩, hTake, hx', hMint, hEnd⟩
    obtain ⟨taken, hTaken, rfl⟩ := (moves_stable (hAfter _)).1 hTake
    rw [put_put] at hx' hEnd
    cases (hKept _).symm.trans hx'
    obtain ⟨_, ⟨⟩, rfl⟩ := (moves_stable (hLast _ _)).1 hEnd
    refine ⟨_, l, ⟨taken, hTaken, rfl⟩, hMint, ?_⟩
    rw [put_comm _ _ _ hNe, put_put]
  · rintro ⟨_, l, ⟨taken, hTake, ⟨⟩⟩, hMint, rfl⟩
    refine ⟨_, _, x, l, ⟨_, rfl, rfl⟩, (moves_stable (hAfter _)).2 ⟨taken, hTake, rfl⟩, ?_,
      hMint, ?_⟩
    · rw [put_put, hKept]
    · rw [put_put]
      refine (moves_stable (hLast _ _)).2 ⟨_, rfl, ?_⟩
      rw [put_comm _ _ _ hNe, put_put]

end Chain

namespace Router

open Wiring (Stands)

variable {w : Wiring} {c c' : Chain} {s : State} {q : Custody} {f : Frame} {back : Callback}
  [back.Adds] {config : Pool.Config} {n m : Amount} {es : List (Address × Event)}

/-- What the custody contract holds of a pool that has taken stable and keeps its books anew. -/
theorem poolBalance_entered (h : w.Stands c s q) {x : Strategy.FixedRate} {u : Token.Stable}
    {p : Address} (hx : c.contract? p = some (.fixedRate x))
    (hu : c.contract? w.stable = some (.stable u)) (hNe : p ≠ w.stable) (v : Token.Stable)
    (l : Token.Ledger) : Custody.poolBalance w.custody p ((c.put w.stable (.stable v)).put p
      (.fixedRate { x with ledger := l })) = .ok (l.balanceOf w.custody) := by
  have hx' := (contract?_put_of_ne c (.stable v) hNe).trans hx
  have hPool := ne_of_contracts hx h.fixed.custody (by simp)
  have hToken := ne_of_contracts hu h.fixed.custody (by simp)
  exact Custody.poolBalance_eq (contract?_put_other hPool
    (contract?_put_other hToken h.fixed.custody)) (contract?_put_self _ hx')

section Deposit

variable (h : w.Stands c s q) (hSelf : f.self = w.router)
  (hAdapter : config.adapter = config.pool) (hCounts : q.supports config.pool = true)

include h hSelf hAdapter hCounts

theorem enters_of_ends (hEnds : Ends (depositIntoPool back f config n) c m c' es) :
    w.Enters config.pool n m c c' ∧ [] = es := by
  obtain ⟨-, x, hx⟩ := h.fixed.pools _ hCounts
  obtain ⟨hStable, hCustody, -⟩ := h.fixed.complete.links h.router
  obtain ⟨u, hu⟩ := h.fixed.complete.stable
  have hNe := h.fixed.stable_ne hCounts
  have hBefore : Custody.poolBalance w.custody config.pool c = .ok (x.ledger.balanceOf w.custody) :=
    Custody.poolBalance_eq h.fixed.custody hx
  simp only [depositIntoPool, ends_view_bind, ends_result_bind, Token.ends_approve_bind,
    View.load_eq_ok, ensure_eq_ok, known_eq_ok, hSelf, hAdapter,
    Strategy.previewDeposit_fixedRate hx, Result.map_eq_ok] at hEnds
  obtain ⟨s', hs', _, ⟨quoted, hQuoted, rfl⟩, _, -, k, hk, before, hHeld, t, ht, c₁, hAllow,
    hBody⟩ := hEnds
  obtain rfl : s = s' := storage_unique h.router hs'
  obtain rfl : w.custody = k := Option.some.inj (hCustody.symm.trans hk)
  obtain rfl : w.stable = t := Option.some.inj (hStable.symm.trans ht)
  obtain ⟨minted, c₃, es₁, es₂, hDeposit, hRest, rfl⟩ := ends_bind.1 hBody
  have hx₁ : c₁.contract? config.pool = some (.fixedRate x) := (hAllow.frame hNe).trans hx
  rw [Strategy.ends_deposit_fixedRate hx₁, Strategy.FixedRate.ends_deposit] at hDeposit
  obtain ⟨shares, t, k, c₂, x', l, hAmount, hHealthy, hShares, hSome, hToken, hTake, hKeeper, hx',
    hMint, rfl, rfl, rfl⟩ := hDeposit
  simp only [Token.ends_approve_bind, ends_result_bind, ends_view_bind, ensure_eq_ok,
    ends_pure] at hRest
  obtain ⟨c₄, hEnd, _, -, after, hGained, _, hMore, _, hExact, rfl, rfl, rfl⟩ := hRest
  obtain rfl := token_of_collected (fun t hKind => h.reserved t config.pool hKind) hAmount
    hAllow hTake
  obtain ⟨u', l', hLend, hMinted, rfl⟩ := (lend_around_mint hu hx hNe).1
    ⟨c₁, c₂, x', l, hAllow, hTake, hx', hMint, hEnd⟩
  cases hBefore.symm.trans hHeld
  cases (poolBalance_entered h hx hu hNe u' l').symm.trans hGained
  obtain ⟨hBalance, -, -⟩ := Token.Ledger.mint_spec hMinted
  -- The custody contract has gained all the shares, so they were issued to it.
  have hSame : w.custody = k := by
    refine Classical.byContradiction fun hNe => hSome ?_
    rw [hExact, hBalance, if_neg hNe, Nat.add_zero, Nat.sub_self]
  subst hSame
  rw [← hExact]
  exact ⟨(Wiring.enters_iff hu hx hNe).2 ⟨u', l', hLend, hAmount, hHealthy, hToken, hKeeper,
    hShares, hSome, hMinted, rfl⟩, rfl⟩

theorem ends_of_enters (hEnters : w.Enters config.pool n m c c') :
    Ends (depositIntoPool back f config n) c m c' [] := by
  obtain ⟨-, x, hx⟩ := h.fixed.pools _ hCounts
  obtain ⟨hStable, hCustody, -⟩ := h.fixed.complete.links h.router
  obtain ⟨u, hu⟩ := h.fixed.complete.stable
  have hNe := h.fixed.stable_ne hCounts
  obtain ⟨u', l', hLend, hAmount, hHealthy, hToken, hKeeper, hShares, hSome, hMinted, rfl⟩ :=
    (Wiring.enters_iff hu hx hNe).1 hEnters
  obtain ⟨c₁, c₂, x', l, hAllow, hTake, hx', hMint, hEnd⟩ := (lend_around_mint hu hx hNe).2
    ⟨u', l', hLend, hMinted, rfl⟩
  have hx₁ : c₁.contract? config.pool = some (.fixedRate x) := (hAllow.frame hNe).trans hx
  obtain ⟨hBalance, -, -⟩ := Token.Ledger.mint_spec hMinted
  have hGained : l'.balanceOf w.custody = x.ledger.balanceOf w.custody + m := by
    rw [hBalance, if_pos rfl]
  have hExact : l'.balanceOf w.custody - x.ledger.balanceOf w.custody = m := by
    rw [hGained, Nat.add_sub_cancel_left]
  have hDeposit : Ends (Strategy.deposit back f.locked config.pool w.router n) c₁ ⟨config.pool, m⟩
      (c₂.put config.pool (.fixedRate { x' with ledger := l })) [] := by
    rw [Strategy.ends_deposit_fixedRate hx₁, Strategy.FixedRate.ends_deposit]
    exact ⟨m, _, _, c₂, x', l, hAmount, hHealthy, hShares, hSome, hToken, hTake, hKeeper, hx',
      hMint, rfl, rfl, rfl⟩
  simp only [depositIntoPool, ends_view_bind, ends_result_bind, Token.ends_approve_bind,
    View.load_eq_ok, ensure_eq_ok, known_eq_ok, hSelf, hAdapter,
    Strategy.previewDeposit_fixedRate hx, Result.map_eq_ok]
  refine ⟨s, h.router, _, ⟨m, hShares, rfl⟩, (), rfl, _, hCustody, _,
    Custody.poolBalance_eq h.fixed.custody hx, _, hStable, c₁, hAllow,
    ends_bind.2 ⟨_, _, _, [], hDeposit, ?_, rfl⟩⟩
  simp only [Token.ends_approve_bind, ends_result_bind, ends_view_bind, ensure_eq_ok, ends_pure]
  refine ⟨_, hEnd, (), trivial, _, poolBalance_entered h hx hu hNe u' l', (), ⟨?_, ?_⟩, (), ?_, ?_,
    rfl, trivial⟩
  · rw [hGained]
    exact Nat.le_add_right _ _
  · exact Nat.le_of_eq hExact.symm
  · exact hExact.symm
  · exact hExact

theorem ends_depositIntoPool : Ends (depositIntoPool back f config n) c m c' es ↔
    w.Enters config.pool n m c c' ∧ [] = es := by
  constructor
  · exact enters_of_ends h hSelf hAdapter hCounts
  · rintro ⟨hEnters, rfl⟩
    exact ends_of_enters h hSelf hAdapter hCounts hEnters

end Deposit

end Router

namespace Token.Ledger

/-- A keeper gives shares of a pool to a taker, and the pool takes them back from there. -/
def reclaim (l : Ledger) (pool keeper taker : Address) (n : Amount) : Result Ledger := do
  let given ← l.transfer keeper taker n
  let taken ← Strategy.takeShares pool taker n (given.approve taker pool n)
  pure (taken.approve taker pool 0)

end Token.Ledger

namespace Contract

/-- A fixed-rate pool takes shares back from the router that come from the custody contract, and
owes an amount of its token for them. It can owe nothing in a token that is not the router's. -/
inductive Redeemed (w : Wiring) (p t : Address) (shares n : Amount) :
    Contract → Contract → Prop where
  | intro {s : Strategy.FixedRate} {l : Token.Ledger} (hSome : shares ≠ 0)
      (hOwed : Rate.assetsForShares shares s.rate = .ok n) (hStable : s.stable = some t)
      (hToken : t = w.stable ∨ n = 0)
      (hTake : s.ledger.reclaim p w.custody w.router shares = .ok l) :
      Redeemed w p t shares n (.fixedRate s) (.fixedRate { s with ledger := l })

end Contract

namespace Wiring

/-- A withdrawal from a fixed-rate pool: the pool takes shares back, and pays for them. -/
def Departs (w : Wiring) (p t : Address) (shares n : Amount) : Chain → Chain → Prop :=
  Comp (Alters p (Contract.Redeemed w p t shares n)) (Moves · t (.transfer p w.router n) ·)

end Wiring

namespace Chain

variable {c c' : Chain} {p t keeper taker : Address} {n shares : Amount} {x : Strategy.FixedRate}

/-- A fixed-rate pool takes shares back and pays for them before the allowance is ended. -/
theorem reclaim_around_pay (hx : c.contract? p = some (.fixedRate x)) :
    (∃ c₁ c₂ x' l c₃, c.Moves p (.transfer keeper taker shares) c₁ ∧
      c₁.Moves p (.approve taker p shares) c₂ ∧ c₂.contract? p = some (.fixedRate x') ∧
      Strategy.takeShares p taker shares x'.ledger = .ok l ∧
      (c₂.put p (.fixedRate { x' with ledger := l })).Moves t (.transfer p taker n) c₃ ∧
      c₃.Moves p (.approve taker p 0) c') ↔
    ∃ l, x.ledger.reclaim p keeper taker shares = .ok l ∧
      (c.put p (.fixedRate { x with ledger := l })).Moves t (.transfer p taker n) c' := by
  have hAfter : ∀ l, (c.put p (.fixedRate { x with ledger := l })).contract? p =
      some (.fixedRate { x with ledger := l }) := fun l => contract?_put_self _ hx
  simp only [moves_fixedRate hx, Token.Ledger.reclaim, Result.bind_eq_ok]
  constructor
  · rintro ⟨_, _, x', l, c₃, ⟨l₁, hGive, rfl⟩, hAllow, hx', hTake, hPay, hEnd⟩
    obtain ⟨l₂, ⟨⟩, rfl⟩ := (moves_fixedRate (hAfter _)).1 hAllow
    rw [put_put] at hx' hPay
    cases (hAfter _).symm.trans hx'
    obtain ⟨d, hEnd, hPay⟩ := swaps_transfer_approve _ _ _ hPay hEnd
    rw [put_put] at hEnd
    obtain ⟨_, ⟨⟩, rfl⟩ := (moves_fixedRate (hAfter _)).1 hEnd
    rw [put_put] at hPay
    exact ⟨_, ⟨l₁, hGive, l, hTake, rfl⟩, hPay⟩
  · rintro ⟨_, ⟨l₁, hGive, l, hTake, ⟨⟩⟩, hPay⟩
    have hEnd : (c.put p (.fixedRate { x with ledger := l })).Moves p (.approve taker p 0)
        (c.put p (.fixedRate { x with ledger := l.approve taker p 0 })) :=
      (moves_fixedRate (hAfter _)).2 ⟨_, rfl, by rw [put_put]⟩
    obtain ⟨c₃, hPay, hEnd⟩ := swaps_approve_transfer _ _ _ hEnd hPay
    refine ⟨_, _, { x with ledger := l₁.approve taker p shares }, l, c₃, ⟨l₁, hGive, rfl⟩,
      (moves_fixedRate (hAfter _)).2 ⟨_, rfl, rfl⟩, ?_, hTake, ?_, hEnd⟩
    · rw [put_put, hAfter]
    · rw [put_put, put_put]
      exact hPay

end Chain

namespace Strategy

variable {c c' : Chain} {self caller p : Address} {m n : Amount} {s : FixedRate}
  {es : List (Address × Event)}

theorem FixedRate.ends_withdraw : Ends (s.withdraw self caller n) c m c' es ↔
    ∃ t liquidity s' l, n ≠ 0 ∧ Rate.assetsForShares n s.rate = .ok m ∧ s.stable = some t ∧
      Token.balanceOf t self c = .ok liquidity ∧ m ≤ liquidity ∧
      c.contract? self = some (.fixedRate s') ∧ takeShares self caller n s'.ledger = .ok l ∧
      (c.put self (.fixedRate { s' with ledger := l })).Moves t (.transfer self caller m) c' ∧
      [] = es := by
  simp only [withdraw, ends_result_bind, ensure_eq_ok, known_eq_ok, ends_view_bind,
    Token.ends_transfer_bind, ends_update_bind, ends_pure, Result.bind_eq_ok]
  constructor
  · rintro ⟨_, hSome, amount, hOwed, t, ht, liquidity, hLiquidity, _, hEnough, s', _, hs',
      ⟨l, hTake, ⟨⟩⟩, c₁, hPay, rfl, rfl, rfl⟩
    exact ⟨t, liquidity, s', l, hSome, hOwed, ht, hLiquidity, hEnough, hs', hTake, hPay, rfl⟩
  · rintro ⟨t, liquidity, s', l, hSome, hOwed, ht, hLiquidity, hEnough, hs', hTake, hPay, rfl⟩
    exact ⟨(), hSome, m, hOwed, t, ht, liquidity, hLiquidity, (), hEnough, s', _, hs',
      ⟨l, hTake, rfl⟩, c', hPay, rfl, rfl, rfl⟩

variable (h : c.contract? p = some (.fixedRate s))

include h

theorem ends_withdraw_fixedRate : Ends (Strategy.withdraw p caller n) c m c' es ↔
    Ends (s.withdraw p caller n) c m c' es := by
  simp only [Strategy.withdraw]
  rw [@ends_entering _ _ _ _ _ _ _ _ _ (@Additive.bind _ _ _ _ _ fun x => by
    split <;> infer_instance), ends_view_bind]
  simp only [View.contract_eq_ok, h, Option.some.injEq, exists_eq_left']

end Strategy

theorem Custody.ends_transferShares {c c' : Chain} {self caller pool recipient : Address}
    {n : Amount} {u : Unit} {es : List (Address × Event)} :
    Ends (Custody.transferShares self caller pool n recipient) c u c' es ↔
      ∃ q, c.contract? self = some (.custody q) ∧ q.router = some caller ∧
        q.supports pool = true ∧ n ≠ 0 ∧ c.Moves pool (.transfer self recipient n) c' ∧
        [(self, .sharesTransferred pool n recipient)] = es := by
  simp only [transferShares, requireRouter, ends_entering, ends_view_bind, ends_result_bind,
    Token.ends_transfer_bind, ends_emit, View.callee_eq_ok, ensure_eq_ok]
  constructor
  · rintro ⟨q, hq, _, hRouter, _, hSupports, _, hSome, c₁, hMove, rfl, hEs⟩
    exact ⟨q, hq, hRouter, hSupports, hSome, hMove, hEs⟩
  · rintro ⟨q, hq, hRouter, hSupports, hSome, hMove, hEs⟩
    exact ⟨q, hq, (), hRouter, (), hSupports, (), hSome, c', hMove, rfl, hEs⟩

namespace Chain

variable {c c' : Chain} {p t taker : Address} {n : Amount} {x : Strategy.FixedRate} {new : Contract}

/-- What a pool pays in another token, it has before its shares are taken back. -/
theorem liquidity_of_pay (hx : c.contract? p = some (.fixedRate x)) (hTaker : taker ≠ p)
    (hToken : t ≠ p ∨ n = 0) (hPay : (c.put p new).Moves t (.transfer p taker n) c') :
    ∃ liquidity, Token.balanceOf t p c = .ok liquidity ∧ n ≤ liquidity := by
  by_cases h : t = p
  · subst h
    obtain rfl : n = 0 := hToken.resolve_left (· rfl)
    exact ⟨_, Token.balanceOf_eq t (books?_of_contract? hx), Nat.zero_le _⟩
  · obtain ⟨l, l', hl, hMove, -⟩ := hPay.spec
    rw [books?_put hx, if_neg h] at hl
    obtain ⟨hCan, -⟩ := (Token.Ledger.transfer_eq_ok hTaker).1 hMove
    refine ⟨_, Token.balanceOf_eq p hl, ?_⟩
    rw [balance, hl]
    exact hCan.1

end Chain

namespace Wiring

variable {w : Wiring} {c c' : Chain} {p t : Address} {n shares : Amount} {x : Strategy.FixedRate}

theorem departs_iff (hx : c.contract? p = some (.fixedRate x)) :
    w.Departs p t shares n c c' ↔ ∃ l, shares ≠ 0 ∧ Rate.assetsForShares shares x.rate = .ok n ∧
      x.stable = some t ∧ (t = w.stable ∨ n = 0) ∧
      x.ledger.reclaim p w.custody w.router shares = .ok l ∧
      (c.put p (.fixedRate { x with ledger := l })).Moves t (.transfer p w.router n) c' := by
  constructor
  · rintro ⟨_, ⟨_, _, hOld, ⟨hSome, hOwed, hStable, hToken, hTake⟩, rfl⟩, hPay⟩
    cases hx.symm.trans hOld
    exact ⟨_, hSome, hOwed, hStable, hToken, hTake, hPay⟩
  · rintro ⟨l, hSome, hOwed, hStable, hToken, hTake, hPay⟩
    exact ⟨_, ⟨_, _, hx, ⟨hSome, hOwed, hStable, hToken, hTake⟩, rfl⟩, hPay⟩

/-- What the router has gained by a payment, as long as it is made in stable. -/
theorem Stands.gained {s : Router.State} {q : Custody} (h : w.Stands c s q)
    (hCounts : q.supports p = true) {l : Token.Ledger} (hx : c.contract? p = some (.fixedRate x))
    (hPay : (c.put p (.fixedRate { x with ledger := l })).Moves t (.transfer p w.router n) c') :
    ∃ before after, Token.balanceOf w.stable w.router c = .ok before ∧
      Token.balanceOf w.stable w.router c' = .ok after ∧
      after - before = if t = w.stable then n else 0 := by
  have hTaken : Alike c (c.put p (.fixedRate { x with ledger := l })) := alike_put hx (by rfl)
  have hAlike : Alike c c' := hTaken.trans hPay.alike
  obtain ⟨u, hu⟩ := h.fixed.complete.stable
  obtain ⟨u', hu'⟩ := ((Steady.of_alike hAlike).fixed h.fixed).complete.stable
  refine ⟨_, _, Token.balanceOf_eq w.router (books?_of_contract? hu),
    Token.balanceOf_eq w.router (books?_of_contract? hu'), ?_⟩
  have hMoved := hPay.balance_transfer w.stable w.router
  have hNe := (h.fixed.stable_ne hCounts).symm
  simp only [h.fixed.router_ne hCounts, and_false, if_false, Nat.add_zero, and_true] at hMoved
  rw [hMoved, balance, books?_put hx, if_neg hNe, ← balance, Nat.add_sub_cancel_left]
  simp only [eq_comm]

end Wiring

namespace Router

open Wiring (Stands)

variable {w : Wiring} {c c' : Chain} {s : State} {q : Custody} {f : Frame} {config : Pool.Config}
  {n m shares : Amount} {es : List (Address × Event)}

section Withdrawal

variable (h : w.Stands c s q) (hSelf : f.self = w.router)

include h hSelf

theorem departs_of_ends (hAdapter : q.supports config.pool = true → config.adapter = config.pool)
    (hEnds : Ends (withdrawShares f config shares) c m c' es) : q.supports config.pool = true ∧
      (∃ t, w.Departs config.pool t shares m c c') ∧
      [(w.custody, .sharesTransferred config.pool shares w.router)] = es := by
  obtain ⟨hStable, hCustody, -⟩ := h.fixed.complete.links h.router
  simp only [withdrawShares, ends_view_bind, ends_result_bind, View.load_eq_ok, known_eq_ok,
    hSelf] at hEnds
  obtain ⟨s', hs', quote, hQuote, t, ht, before, hBefore, k, hk, hBody⟩ := hEnds
  obtain rfl : s = s' := storage_unique h.router hs'
  obtain rfl : w.custody = k := Option.some.inj (hCustody.symm.trans hk)
  obtain rfl : w.stable = t := Option.some.inj (hStable.symm.trans ht)
  obtain ⟨_, c₁, es₁, es₂, hFirst, hRest, rfl⟩ := ends_bind.1 hBody
  obtain ⟨q', hq', hRouter, hCounts, hSome, hGive, rfl⟩ := Custody.ends_transferShares.1 hFirst
  obtain rfl : q = q' := storage_unique h.fixed.custody hq'
  obtain ⟨-, x, hx⟩ := h.fixed.pools _ hCounts
  rw [hAdapter hCounts] at hRest hQuote
  simp only [Token.ends_approve_bind] at hRest
  obtain ⟨c₂, hAllow, hRest⟩ := hRest
  obtain ⟨reported, c₃, es₃, es₄, hWithdraw, hLast, rfl⟩ := ends_bind.1 hRest
  obtain ⟨x₂, hx₂⟩ := (hGive.alike.trans hAllow.alike).fixedRate hx
  rw [Strategy.ends_withdraw_fixedRate hx₂, Strategy.FixedRate.ends_withdraw] at hWithdraw
  obtain ⟨t, liquidity, x', l, -, hOwed, hToken, -, -, hx', hTake, hPay, rfl⟩ := hWithdraw
  simp only [Token.ends_approve_bind, ends_result_bind, ends_view_bind, ensure_eq_ok,
    ends_pure] at hLast
  obtain ⟨c₄, hEnd, after, hAfter, _, hReported, _, hEnough, rfl, rfl, rfl⟩ := hLast
  obtain ⟨l', hReclaim, hPaid⟩ := (reclaim_around_pay hx).1
    ⟨c₁, c₂, x', l, c₃, hGive, hAllow, hx', hTake, hPay, hEnd⟩
  obtain ⟨before', after', hBefore', hAfter', hGained⟩ := h.gained hCounts hx hPaid
  cases hBefore'.symm.trans hBefore
  cases hAfter'.symm.trans hAfter
  refine ⟨hCounts, ⟨t, (Wiring.departs_iff hx).2 ⟨l', hSome, ?_, hToken, ?_, hReclaim, ?_⟩⟩, rfl⟩
  · rw [← hReported]
    exact hOwed
  · refine Classical.or_iff_not_imp_left.2 fun hOther => ?_
    rw [hGained, if_neg hOther]
  · rw [← hReported]
    exact hPaid

theorem ends_of_departs {t : Address} (hAdapter : config.adapter = config.pool)
    (hCounts : q.supports config.pool = true)
    (hDeparts : w.Departs config.pool t shares m c c') :
    Ends (withdrawShares f config shares) c m c'
      [(w.custody, .sharesTransferred config.pool shares w.router)] := by
  obtain ⟨hStable, hCustody, -⟩ := h.fixed.complete.links h.router
  obtain ⟨-, x, hx⟩ := h.fixed.pools _ hCounts
  obtain ⟨l', hSome, hOwed, hToken, hOther, hReclaim, hPaid⟩ := (Wiring.departs_iff hx).1 hDeparts
  obtain ⟨c₁, c₂, x', l, c₃, hGive, hAllow, hx', hTake, hPay, hEnd⟩ :=
    (reclaim_around_pay hx).2 ⟨l', hReclaim, hPaid⟩
  obtain ⟨x₂, hx₂⟩ := (hGive.alike.trans hAllow.alike).fixedRate hx
  obtain ⟨before, after, hBefore, hAfter, hGained⟩ := h.gained hCounts hx hPaid
  have hReceived : after - before = m := by
    rw [hGained]
    split
    · rfl
    · next hNe => exact (hOther.resolve_left hNe).symm
  have hNotPool : t ≠ config.pool ∨ m = 0 := by
    refine hOther.imp_left ?_
    rintro rfl
    exact (h.fixed.stable_ne hCounts).symm
  obtain ⟨liquidity, hLiquidity, hEnough⟩ :=
    liquidity_of_pay hx' (h.fixed.router_ne hCounts) hNotPool hPay
  have hWithdraw : Ends (Strategy.withdraw config.pool w.router shares) c₂ m c₃ [] := by
    rw [Strategy.ends_withdraw_fixedRate hx₂, Strategy.FixedRate.ends_withdraw]
    exact ⟨t, liquidity, x', l, hSome, hOwed, hToken, hLiquidity, hEnough, hx', hTake, hPay, rfl⟩
  obtain ⟨q', hq', hRouter⟩ := h.fixed.complete.custody
  obtain rfl : q = q' := storage_unique h.fixed.custody hq'
  simp only [withdrawShares, ends_view_bind, ends_result_bind, View.load_eq_ok, known_eq_ok, hSelf,
    hAdapter]
  refine ⟨s, h.router, m, ?_, _, hStable, _, hBefore, _, hCustody, ends_bind.2 ⟨(), c₁, _, [],
    Custody.ends_transferShares.2 ⟨q, h.fixed.custody, hRouter, hCounts, hSome, hGive, rfl⟩, ?_,
    rfl⟩⟩
  · rw [Strategy.previewWithdraw_fixedRate hx, hOwed]
  · refine Token.ends_approve_bind.2 ⟨c₂, hAllow, ends_bind.2 ⟨m, c₃, [], [], hWithdraw, ?_, rfl⟩⟩
    simp only [Token.ends_approve_bind, ends_result_bind, ends_view_bind, ensure_eq_ok, ends_pure]
    exact ⟨c', hEnd, after, hAfter, (), hReceived.symm, (), Nat.le_of_eq hReceived.symm,
      hReceived, rfl, trivial⟩

theorem ends_withdrawShares
    (hAdapter : q.supports config.pool = true → config.adapter = config.pool) :
    Ends (withdrawShares f config shares) c m c' es ↔ q.supports config.pool = true ∧
      (∃ t, w.Departs config.pool t shares m c c') ∧
      [(w.custody, .sharesTransferred config.pool shares w.router)] = es := by
  constructor
  · exact departs_of_ends h hSelf hAdapter
  · rintro ⟨hCounts, ⟨t, hDeparts⟩, rfl⟩
    exact ends_of_departs h hSelf (hAdapter hCounts) hCounts hDeparts

end Withdrawal

theorem ends_withdrawValue : Ends (withdrawValue f config n) c m c' es ↔
    ∃ shares, Strategy.previewShares config.adapter n c = .ok shares ∧ shares ≠ 0 ∧
      Ends (withdrawShares f config shares) c m c' es ∧ n ≤ m := by
  simp only [withdrawValue, ends_view_bind, ends_result_bind, ensure_eq_ok]
  refine exists_congr fun shares => and_congr_right fun _ => ?_
  rw [ends_bind]
  simp only [ends_result_bind, ensure_eq_ok, ends_pure]
  constructor
  · rintro ⟨_, hSome, received, c₁, es₁, _, hLeg, ⟨_, hEnough, rfl, rfl, rfl⟩, rfl⟩
    rw [List.append_nil]
    exact ⟨hSome, hLeg, hEnough⟩
  · rintro ⟨hSome, hLeg, hEnough⟩
    exact ⟨(), hSome, m, c', es, [], hLeg, ⟨(), hEnough, rfl, rfl, rfl⟩, List.append_nil es⟩

theorem ends_purchase {back : Callback} [back.Adds] {p : Purchase} {u : Unit}
    (h : w.Stands c s q) (hSelf : f.self = w.router) (hAdapter : p.config.adapter = p.config.pool)
    (hCounts : q.supports p.config.pool = true) :
    Ends (purchase back f p) c u c' es ↔
      (∃ m, w.Enters p.config.pool p.pay m c c' ∧ p.atLeast ≤ m) ∧ [] = es := by
  rw [purchase, ends_bind]
  simp only [ends_result, ensure_eq_ok, ends_depositIntoPool h hSelf hAdapter hCounts]
  constructor
  · rintro ⟨m, c₁, _, _, ⟨hLeg, rfl⟩, ⟨hEnough, rfl, rfl⟩, rfl⟩
    exact ⟨⟨m, hLeg, hEnough⟩, rfl⟩
  · rintro ⟨⟨m, hLeg, hEnough⟩, rfl⟩
    exact ⟨m, c', [], [], ⟨hLeg, rfl⟩, ⟨hEnough, rfl, rfl⟩, rfl⟩

end Router

end Treasury
