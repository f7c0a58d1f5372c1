import Treasury.Proofs.DepositValue
import Treasury.Proofs.LegOrder
import Treasury.Proofs.StandingApprovals

/-! What deposits bring into custody. All that a pool issues for a deposit of the router goes to the
custody contract, and fixed-rate adapters and vaults issue at least one share. A synthetic adapter
does not insist on that: it takes an amount that is worth less than a share, and issues nothing. -/
namespace Treasury

open Exec Chain

namespace Contract

/-- The rate of a synthetic adapter. -/
def syntheticRate? : Contract → Option Amount
  | synthetic s => some s.rate
  | _ => none

theorem syntheticRate?_bare (x : Contract) : x.bare.syntheticRate? = x.syntheticRate? := by
  cases x <;> rfl

end Contract

namespace Chain

variable {c c' : Chain} {a x payer stable pool : Address} {n reported : Amount}

/-- The adapter is synthetic, and takes an amount that is worth less than one of its shares. -/
def Swallows (c : Chain) (x : Address) (n : Amount) : Prop :=
  ∃ rate ∈ (c.contract? x).bind Contract.syntheticRate?, n * rateScale < rate

instance (c : Chain) (x : Address) (n : Amount) : Decidable (c.Swallows x n) := by
  unfold Swallows
  infer_instance

theorem swallows_of_contract? {y : Contract} (hx : c.contract? x = some y) :
    c.Swallows x n ↔ ∃ rate ∈ y.syntheticRate?, n * rateScale < rate := by
  rw [Swallows, hx, Option.bind_some]

theorem swallows_congr (h : (c'.contract? x).map Contract.syntheticRate? =
    (c.contract? x).map Contract.syntheticRate?) :
    c'.Swallows x n ↔ c.Swallows x n := by
  have hRate := congrArg (Option.bind · id) h
  rw [Option.bind_map, Option.bind_map, Function.id_comp] at hRate
  rw [Swallows, Swallows, hRate]

theorem Alike.swallows (h : Alike c c') : c'.Swallows x n ↔ c.Swallows x n :=
  swallows_congr (h.map Contract.syntheticRate?_bare x)

/-- If a desk has gained all that is reported as issued of a pool, it has gained nothing else. -/
theorem Endows.gained (h : c.Endows payer stable reported c') (hDesk : c.Desk a)
    (hPayer : a ≠ payer) (hExact : c'.balance pool a = c.balance pool a + reported) (p : Address) :
    c'.balance p a = c.balance p a + if p = pool then reported else 0 := by
  obtain ⟨issuer, holder, shares, hReport, hGets⟩ := h
  have hGets : ∀ p, c'.balance p a =
      c.balance p a + if p = issuer ∧ a = holder then shares else 0 :=
    fun p => hGets p a hDesk fun hSame => (hPayer hSame).elim
  have hAt := hGets pool
  rw [hExact, Nat.add_left_cancel_iff] at hAt
  rw [hGets p]
  by_cases hNone : reported = 0
  · have hShares : shares = 0 := Nat.le_zero.1 (hNone ▸ hReport)
    simp only [hNone, hShares, ite_self]
  · have hIssued : pool = issuer ∧ a = holder := by
      refine Classical.byContradiction fun hNot => hNone ?_
      rw [hAt, if_neg hNot]
    rw [if_pos hIssued] at hAt
    simp only [hAt, hIssued.1, hIssued.2, and_true]

end Chain

/-- Value that flows leaves rates as they are. -/
theorem Flow.swallows {user x : Address} {n : Amount} {c c' : Chain} (h : Flow user c c') :
    c'.Swallows x n ↔ c.Swallows x n :=
  swallows_congr (h.map Contract.syntheticRate?_bare (fun _ _ => rfl) (fun _ => rfl) x)

section Adapters

variable {u : World} {c : Chain} {self caller payer stable adapter : Address} {n : Amount}
  {back : Router.Callback} {locked : List Address}

namespace Strategy

/-- A fixed-rate adapter issues at least one share. -/
theorem FixedRate.after_deposit_some {s : FixedRate} :
    After (s.deposit self caller n) u fun minted _ => minted.shares ≠ 0 := by
  simp only [FixedRate.deposit, after_bind, after_result, ensure_eq_ok, forall_const, known_eq_ok,
    after_update, after_pure]
  intro _ _ shares _ hSome t _
  exact Token.after_transferFrom.mono fun _ _ _ _ _ _ _ _ _ => hSome

/-- A wrapped-vault adapter has its vault issue at least one. -/
theorem Wrapped.after_deposit_some {s : Wrapped} :
    After (s.deposit self caller n) u fun minted _ => minted.shares ≠ 0 := by
  simp only [Wrapped.deposit, Yield.deposit, after_bind, after_result, after_view, after_entering,
    ensure_eq_ok, forall_const, known_eq_ok, after_update, after_pure]
  intro _ _ vault _ stable _
  refine Token.after_transferFrom.mono fun _ _ _ => Token.after_approve.mono fun _ _ _ => ?_
  intro custody _ _ _ _ shares _ hSome _ _
  refine Token.after_transferFrom.mono fun _ _ _ _ _ _ _ => ?_
  exact Token.after_approve.mono fun _ _ _ => hSome

/-- Nothing is issued for a quote of nothing, whatever the switches are set to. -/
theorem Synthetic.executed_zero {s : Synthetic} (h : s.executed 0 = .ok n) : n = 0 := by
  simp only [executed, Result.bind_eq_ok, Amount.mulDiv_eq_ok, Amount.sub_eq_ok, Amount.add_eq_ok,
    Nat.zero_mul, Nat.zero_div] at h
  obtain ⟨_, ⟨-, -, rfl⟩, _, ⟨-, rfl⟩, _, ⟨-, -, rfl⟩, -, rfl⟩ := h
  rfl

theorem Synthetic.after_deposit_swallowed {s : Synthetic}
    (hBack : After (s.callBack back locked self) u fun _ v => v.chain = u.chain)
    (hAdapter : u.chain.contract? self = some (.synthetic s)) (hRate : n * rateScale < s.rate)
    (hToken : n ≠ 0 → ∀ t c', u.chain.Moves t (.transferFrom self payer self n) c' → t = stable) :
    After (s.deposit back locked self payer n) u fun _ v =>
      u.chain.Endows payer stable 0 v.chain := by
  refine (Synthetic.after_deposit_moves (R := (· = u.chain)) hBack).mono ?_
  rintro minted v ⟨_, s', t, due, shares, custodian, c, rfl, hAmount, hAdapter', -, hDue, hShares,
    -, hMove, hMint⟩
  obtain rfl : s = s' := storage_unique hAdapter hAdapter'
  have hNothing : due = 0 := (Amount.mulDiv_eq_ok.1 hDue).2.2 ▸ Nat.div_eq_of_lt hRate
  rw [hNothing] at hShares
  have hIssued := Synthetic.executed_zero hShares
  exact endows_of_own hAdapter (by simp [Contract.kind]) (hToken hAmount _ _ hMove) hMove hMint
    (Nat.le_of_eq hIssued)

/-- Only a synthetic adapter reports that it has issued nothing. -/
theorem after_deposit_some : After (Strategy.deposit back locked adapter payer n) u fun minted _ =>
    minted.shares = 0 → u.chain.kind? adapter = some .synthetic := by
  simp only [Strategy.deposit, after_entering, after_bind, after_view, View.contract_eq_ok]
  intro x hx
  cases x with
  | fixedRate s => exact FixedRate.after_deposit_some.mono fun _ _ hSome hNone => absurd hNone hSome
  | synthetic s => exact fun _ _ _ _ => kind?_of_contract? hx
  | wrapped s => exact Wrapped.after_deposit_some.mono fun _ _ hSome hNone => absurd hNone hSome
  | stable | share | yieldVault | custody | router | registry | roles | ledger =>
    exact after_throw.2 trivial

/-- Nothing is issued for an amount that is swallowed. -/
theorem after_deposit_swallowed
    (hBack : ∀ s v, v.chain = u.chain → u.chain.contract? adapter = some (.synthetic s) →
      After (s.callBack back locked adapter) v fun _ v' => v'.chain = u.chain)
    (hToken : n ≠ 0 → ∀ t c',
      u.chain.Moves t (.transferFrom adapter payer adapter n) c' → t = stable) :
    After (Strategy.deposit back locked adapter payer n) u fun _ v =>
      u.chain.Swallows adapter n → u.chain.Endows payer stable 0 v.chain := by
  by_cases hSwallows : u.chain.Swallows adapter n
  · simp only [hSwallows, forall_const, Strategy.deposit, after_entering, after_bind, after_view,
      View.contract_eq_ok]
    intro x hx
    obtain ⟨rate, hRate, hLess⟩ := (swallows_of_contract? hx).1 hSwallows
    cases x with
    | synthetic s =>
      cases hRate
      exact Synthetic.after_deposit_swallowed (hBack s _ rfl hx) hx hLess hToken
    | _ => cases hRate
  · exact fun _ _ _ h => absurd h hSwallows

/-- What an adapter quotes for a deposit are shares of a pool that issues shares of its own. -/
theorem previewDeposit_issuer {quote : Minted} (h : previewDeposit adapter n c = .ok quote) :
    ∃ k ∈ [Contract.Kind.fixedRate, .synthetic, .yieldVault], c.kind? quote.pool = some k := by
  simp only [previewDeposit, View.bind_eq_ok, View.contract_eq_ok] at h
  obtain ⟨x, hx, h⟩ := h
  cases x with
  | fixedRate s =>
    obtain ⟨_, -, ⟨⟩⟩ := View.bind_eq_ok.1 h
    exact ⟨_, by simp [Contract.kind], kind?_of_contract? hx⟩
  | synthetic s =>
    simp only [View.bind_eq_ok] at h
    obtain ⟨_, -, _, -, ⟨⟩⟩ := h
    exact ⟨_, by simp [Contract.kind], kind?_of_contract? hx⟩
  | wrapped s =>
    simp only [View.bind_eq_ok, Yield.previewDeposit, Yield.sharesFor, View.callee_eq_ok] at h
    obtain ⟨vault, -, _, ⟨y, hy, -⟩, ⟨⟩⟩ := h
    exact ⟨_, by simp [Contract.kind, Storage.wrap], kind?_of_contract? hy⟩
  | stable | share | yieldVault | custody | router | registry | roles | ledger => cases h

/-- A synthetic adapter quotes no shares just for an amount that it swallows. -/
theorem previewDeposit_eq_zero {quote : Minted} (h : previewDeposit adapter n c = .ok quote)
    (hKind : c.kind? adapter = some .synthetic) (hNone : quote.shares = 0) :
    c.Swallows adapter n := by
  simp only [previewDeposit, View.bind_eq_ok, View.contract_eq_ok] at h
  obtain ⟨x, hx, h⟩ := h
  rw [kind?_of_contract? hx, Option.some.injEq] at hKind
  cases x with
  | synthetic s =>
    simp only [View.bind_eq_ok, View.lift_apply] at h
    obtain ⟨_, -, shares, hShares, ⟨⟩⟩ := h
    obtain ⟨-, hLess⟩ := Rate.sharesForDeposit_bounds hShares
    obtain rfl : shares = 0 := hNone
    rw [Nat.zero_add, Nat.one_mul] at hLess
    exact (swallows_of_contract? hx).2 ⟨s.rate, rfl, hLess⟩
  | _ => cases hKind

end Strategy

end Adapters

namespace Wiring

variable {w : Wiring} {user : Address} {config : Pool.Config} {n minted : Amount} {c c₁ c' : Chain}
  {p : Router.Purchase} {rest : List Router.Purchase}

/-- A deposit of an amount into a pool has added shares of the pool to what the custody contract
holds. It has added none just when the adapter swallows the amount. -/
structure Stocks (w : Wiring) (config : Pool.Config) (n minted : Amount) (c c' : Chain) :
    Prop where
  gained : c'.balance config.pool w.custody = c.balance config.pool w.custody + minted
  swallowed : minted = 0 ↔ c.Swallows config.adapter n
  apart : config.pool ≠ w.share

/-- Nothing else has been added. -/
structure Credits (w : Wiring) (config : Pool.Config) (n minted : Amount) (c c' : Chain) : Prop
    extends w.Stocks config n minted c c' where
  others : ∀ p, p ≠ config.pool → c'.balance p w.custody = c.balance p w.custody

/-- Purchases have added shares of their pools to what the custody contract holds, and nothing else.
-/
structure Stocked (w : Wiring) (purchases : List Router.Purchase) (c c' : Chain) : Prop where
  bought : ∀ p ∈ purchases, ∃ minted, p.atLeast ≤ minted ∧ w.Stocks p.config p.pay minted c c'
  others : ∀ pool, (∀ p ∈ purchases, p.config.pool ≠ pool) →
    c'.balance pool w.custody = c.balance pool w.custody

namespace Stocks

theorem of_before (h : w.Stocks config n minted c₁ c')
    (hHeld : c₁.balance config.pool w.custody = c.balance config.pool w.custody)
    (hSwallows : c₁.Swallows config.adapter n ↔ c.Swallows config.adapter n) :
    w.Stocks config n minted c c' :=
  ⟨hHeld ▸ h.gained, h.swallowed.trans hSwallows, h.apart⟩

theorem then_same (h : w.Stocks config n minted c c₁)
    (hHeld : c'.balance config.pool w.custody = c₁.balance config.pool w.custody) :
    w.Stocks config n minted c c' :=
  ⟨hHeld.trans h.gained, h.swallowed, h.apart⟩

/-- The treasury's own shares are no pool's. -/
theorem then_put (h : w.Stocks config n minted c c₁) {old new : Contract}
    (hOld : c₁.contract? w.share = some old) : w.Stocks config n minted c (c₁.put w.share new) := by
  refine h.then_same ?_
  rw [balance, books?_put hOld, if_neg h.apart, balance]

end Stocks

/-- One more purchase is made before those in other pools. -/
theorem Stocked.cons (hFlow : Flow user c c₁) (hFirst : w.Credits p.config p.pay minted c c₁)
    (hEnough : p.atLeast ≤ minted) (hApart : ∀ p' ∈ rest, p.config.pool ≠ p'.config.pool)
    (h : w.Stocked rest c₁ c') : w.Stocked (p :: rest) c c' := by
  constructor
  · refine List.forall_mem_cons.2 ⟨⟨minted, hEnough, hFirst.then_same ?_⟩, fun p' hp' => ?_⟩
    · exact h.others _ fun p' hp' => (hApart p' hp').symm
    · obtain ⟨minted', hEnough', hStocks⟩ := h.bought p' hp'
      exact ⟨minted', hEnough', hStocks.of_before (hFirst.others _ (hApart p' hp').symm)
        hFlow.swallows⟩
  · intro pool hPool
    obtain ⟨hFirstPool, hRestPool⟩ := List.forall_mem_cons.1 hPool
    rw [h.others pool hRestPool, hFirst.others pool hFirstPool.symm]

end Wiring

namespace Router

variable {w : Wiring} {user : Address} {u : World} {f : Frame} {back : Callback}
  {config : Pool.Config} {n : Amount}

theorem after_depositIntoPool_credits (h : w.Engaged user f u.chain)
    (hBack : w.Shielded user back) :
    After (depositIntoPool back f config n) u fun minted v =>
      w.Credits config n minted u.chain v.chain := by
  simp only [depositIntoPool, after_bind, after_view, after_result, View.load_eq_ok, ensure_eq_ok,
    forall_const, known_eq_ok, after_pure, h.self]
  intro s hs quote hQuote hPool custody hCustody before hBefore stable hStable
  obtain ⟨-, hKnown, hKeeper, -⟩ := h.ready.router hs
  obtain rfl : w.stable = stable := Option.some.inj (hKnown.symm.trans hStable)
  obtain rfl : w.custody = custody := Option.some.inj (hKeeper.symm.trans hCustody)
  have hDesk := Custody.desk_of_poolBalance hBefore
  have hOther : w.custody ≠ w.router := by
    intro hSame
    cases (hSame ▸ hDesk).symm.trans h.stands
  refine Token.after_approve.mono fun _ u₁ hAllow => ?_
  have hToken : n ≠ 0 → ∀ t c',
      u₁.chain.Moves t (.transferFrom config.adapter w.router config.adapter n) c' →
        t = w.stable := fun hAmount _ _ hTake =>
    token_of_collected (fun t => h.ready.reserved t _) hAmount hAllow hTake
  have hCall : ∀ s v, v.chain = u₁.chain →
      u₁.chain.contract? config.adapter = some (.synthetic s) →
        After (s.callBack back f.locked config.adapter) v fun _ v' => v'.chain = u₁.chain := by
    intro s v hv _
    have hKept := h.ready.toKept.alike hAllow.alike
    rw [← hv] at hKept ⊢
    exact after_callBack_none hBack hKept h.locked
  have hDesk₁ : u₁.chain.Desk w.custody := .inr ((hAllow.alike.kind? _).trans hDesk)
  refine ((Strategy.after_deposit_endows hCall hToken).and
    ((Strategy.after_deposit_swallowed hCall hToken).and Strategy.after_deposit_some)).mono ?_
  rintro minted u₂ ⟨hEndows, hSwallowed, hSome⟩
  refine Token.after_approve.mono fun _ v hEnd _ after hAfter hQuoted hExact => ?_
  have hHeld : u₂.chain.balance config.pool w.custody =
      u₁.chain.balance config.pool w.custody + minted.shares := by
    rw [← hEnd.balance_approve, hAllow.balance_approve, Custody.poolBalance_ok hAfter,
      Custody.poolBalance_ok hBefore, hExact, Nat.add_sub_cancel' hQuoted.1]
  have hGained := hEndows.gained hDesk₁ hOther hHeld
  simp only [← hEnd.balance_approve, hAllow.balance_approve] at hGained
  rw [← hExact]
  refine ⟨⟨?_, ⟨fun hNone => ?_, fun hSwallows => ?_⟩, ?_⟩, fun p hp => ?_⟩
  · rw [hGained, if_pos rfl]
  · -- The quote is no more than what was issued, and a synthetic adapter has given it.
    have hKind := hSome hNone
    rw [hAllow.alike.kind?] at hKind
    refine Strategy.previewDeposit_eq_zero hQuote hKind (Nat.le_zero.1 ?_)
    rw [← hNone, hExact]
    exact hQuoted.2
  · obtain ⟨_, holder, shares, hReport, hGets⟩ := hSwallowed (hAllow.alike.swallows.2 hSwallows)
    have hSame := hGets config.pool w.custody hDesk₁ fun hSame => (hOther hSame).elim
    rw [Nat.le_zero.1 hReport, ite_self, Nat.add_zero, hHeld] at hSame
    exact Nat.left_eq_add.1 hSame.symm
  · obtain ⟨k, hKind, hIssuer⟩ := Strategy.previewDeposit_issuer hQuote
    rintro hShare
    obtain ⟨x, hx, rfl⟩ := Option.map_eq_some_iff.1 hIssuer
    rw [hPool, hShare] at hx
    simp [((h.ready.admits _ _ hx).2.2.2.1 rfl).1] at hKind
  · rw [hGained, if_neg hp, Nat.add_zero]

theorem after_purchases_stocked {purchases : List Purchase} (h : w.Engaged user f u.chain)
    (hBack : w.Shielded user back)
    (hApart : purchases.Pairwise fun p p' => p.config.pool ≠ p'.config.pool) :
    After (purchases.forM (purchase back f)) u fun _ v => w.Stocked purchases u.chain v.chain := by
  induction purchases generalizing u with
  | nil => exact after_pure.2 ⟨by simp, fun _ _ => rfl⟩
  | cons p rest ih =>
    obtain ⟨hFirst, hRest⟩ := List.pairwise_cons.1 hApart
    change After (purchase back f p >>= fun _ => rest.forM (purchase back f)) u _
    simp only [after_bind, purchase, after_result, ensure_eq_ok, forall_const]
    refine ((after_depositIntoPool_clears h hBack).and
      (after_depositIntoPool_credits h hBack)).mono ?_
    rintro minted u₁ ⟨hClears, hCredits⟩ hEnough
    exact (ih (h.clears hClears) hRest).mono fun _ v hStocked =>
      .cons hClears.flow hCredits hEnough hFirst hStocked

/-- What the router takes in is none of the custody contract's. -/
theorem after_pullStable_held {owner : Address} (hSelf : f.self = w.router)
    (hRouter : w.custody ≠ w.router) (hOwner : w.custody ≠ owner) :
    After (pullStable f owner n) u fun _ v => Alike u.chain v.chain ∧
      ∀ p, v.chain.balance p w.custody = u.chain.balance p w.custody := by
  simp only [pullStable, after_bind, after_view, after_result, View.load_eq_ok, known_eq_ok, hSelf]
  intro s _ stable _
  exact Token.after_transferFrom.mono fun _ v hMove =>
    ⟨hMove.alike, fun p => hMove.balance_collected (fun hSame => (hOwner hSame).elim) hRouter⟩

theorem after_solverDeposit_stocks {s : State} {purchases : List Purchase} {minShares : Amount}
    {receiver : Address} (h : w.Engaged user f u.chain) (hBack : w.Shielded user back)
    (hs : u.chain.contract? w.router = some (.router s)) (hRouter : w.custody ≠ w.router)
    (hUser : w.custody ≠ user)
    (hApart : purchases.Pairwise fun p p' => p.config.pool ≠ p'.config.pool) :
    After (solverDeposit back f s purchases minShares receiver) u fun _ v =>
      ∀ p ∈ purchases, ∃ minted,
        p.atLeast ≤ minted ∧ w.Stocks p.config p.pay minted u.chain v.chain := by
  simp only [solverDeposit, after_bind, after_view, after_result, known_eq_ok, after_emit,
    after_pure]
  intro total _ _ _ _ _ token hToken shares _ _ _ _ _
  obtain rfl := share_of_known h.ready hs hToken
  have hPayer : u.chain.Payer user f.self f.caller := .inl (.inl h.caller)
  refine ((after_pullStable_clears h hPayer).and
    (after_pullStable_held h.self hRouter (h.caller ▸ hUser))).mono ?_
  rintro _ u₁ ⟨hPulled, hAlike, hHeld⟩
  refine (after_purchases_stocked (h.clears hPulled) hBack hApart).mono fun _ v hStocked => ?_
  refine After.mono ShareToken.after_mintFor_moves ?_
  rintro _ x ⟨t, l, hOld, -, -, hx⟩ p hp
  obtain ⟨minted, hEnough, hStocks⟩ := hStocked.bought p hp
  exact ⟨minted, hEnough, hx ▸ (hStocks.of_before (hHeld _) hAlike.swallows).then_put hOld⟩

theorem after_handleDeposit_stocks {initiator receiver : Address} {assets shares : Amount}
    (hReady : w.Ready u.chain) (hUser : user ≠ w.router) (hCaller : f.caller = user)
    (hBack : w.Shielded user back) (hRouter : w.custody ≠ w.router)
    (hInitiator : w.custody ≠ initiator) :
    After (handleDeposit back f initiator assets shares receiver) u fun _ v =>
      ∃ config minted, (u.chain.routing w.router).registry.get? config.pool = some config ∧
        (w.router, .deposited initiator receiver config.pool assets minted) ∈ v.events ∧
        w.Stocks config assets minted u.chain v.chain := by
  simp only [handleDeposit, after_guarded, after_bind, after_view, after_result, ensure_eq_ok,
    State.requireRunning, requireShareToken, forall_const]
  intro s hs _ _ hShare _ _ _
  have hSelf : f.self = w.router := (hReady.admits _ _ hs).2.2.2.2 rfl
  rw [hSelf] at hs ⊢
  have hWork : w.Engaged user ⟨w.router, f.caller, w.router :: f.locked⟩ u.chain :=
    ⟨hReady, kind?_of_contract? hs, rfl, hCaller, hUser, List.mem_cons_self⟩
  have hPayer : u.chain.Payer user w.router initiator := .inr ⟨s, hs, hCaller ▸ hShare⟩
  refine ((after_pullStable_clears (by exact hWork) (by exact hPayer)).and
    (after_pullStable_held rfl hRouter hInitiator)).mono ?_
  rintro _ u₁ ⟨hPulled, hAlike, hHeld⟩ pools hPools
  split
  · simp only [refuse, reduceCtorEq, after_result, false_implies, implies_true]
  · next config hConfig =>
    simp only [after_bind, after_emit]
    obtain ⟨i, -, hAt⟩ := Option.bind_eq_some_iff.1 hConfig
    have hGet := hReady.agrees.registry.get?_of_mem
      (List.mem_of_getElem? (routing_of hs ▸ hAt))
    refine (after_depositIntoPool_credits (hWork.clears hPulled) hBack).mono ?_
    intro minted v hCredits
    exact ⟨config, minted, hGet, by simp, hCredits.of_before (hHeld _) hAlike.swallows⟩

end Router

namespace Router

variable {w : Wiring} {c : Chain} {registry : Pool.Registry} {direction : Direction}
  {legs : List Pool.Leg} {parts : List Part} {purchases : List Purchase}

/-- No leg that is resolved names nothing. -/
theorem resolveAll_some (h : resolveAll registry direction legs = .ok parts) :
    ∀ leg ∈ legs, leg.amount ≠ 0 := by
  simp only [resolveAll, Result.bind_eq_ok, resolve_eq_ok] at h
  obtain ⟨_, -, hEach, -⟩ := h
  exact fun leg hLeg => (hEach leg hLeg).1

theorem purchasesOfShares_parts (h : purchasesOfShares parts c = .ok purchases) :
    purchases.map (fun p => (⟨p.config, p.atLeast⟩ : Part)) = parts := by
  rw [purchasesOfShares] at h
  induction parts generalizing purchases with
  | nil =>
    rw [List.mapM_nil] at h
    cases h
    rfl
  | cons part rest ih =>
    simp only [List.mapM_cons, View.bind_eq_ok, View.pure_apply, Except.ok.injEq] at h
    obtain ⟨_, ⟨pay, -, rfl⟩, tail, hTail, rfl⟩ := h
    rw [List.map_cons, ih hTail]

end Router

namespace Wiring

/-- What the custody contract holds of a registered pool does not fall by a deposit of an amount. It
grows unless the pool's adapter swallows the amount. -/
def Grows (w : Wiring) (c c' : Chain) (pool : Address) (n : Amount) : Prop :=
  ∃ config, (c.routing w.router).registry.get? pool = some config ∧
    c.balance pool w.custody ≤ c'.balance pool w.custody ∧
    (c.balance pool w.custody < c'.balance pool w.custody ↔ ¬c.Swallows config.adapter n)

theorem Stocks.grows {w : Wiring} {c c' : Chain} {config : Pool.Config} {n minted : Amount}
    (h : w.Stocks config n minted c c')
    (hGet : (c.routing w.router).registry.get? config.pool = some config) :
    w.Grows c c' config.pool n := by
  refine ⟨config, hGet, h.gained ▸ Nat.le_add_right _ _, ?_⟩
  rw [h.gained, ← h.swallowed]
  exact Nat.lt_add_right_iff_pos.trans Nat.pos_iff_ne_zero

end Wiring

section Entries

variable {w : Wiring} {user : Address} {u : World} {f : Router.Frame} {back : Router.Callback}
  {legs : List Pool.Leg} {least : Amount} {receiver : Address}

theorem ShareToken.after_deposit_grows {caller : Address} {assets : Amount}
    (hComplete : w.Complete u.chain) (hReady : w.Ready u.chain) (hBack : w.Shielded w.share back)
    (hRouter : w.custody ≠ w.router) (hCaller : w.custody ≠ caller) :
    After (ShareToken.deposit back w.share caller assets receiver) u fun _ v => ∃ pool minted,
      (w.router, .deposited caller receiver pool assets minted) ∈ v.events ∧
        w.Grows u.chain v.chain pool assets := by
  obtain ⟨t, ht, hKnown⟩ := hComplete.share
  obtain ⟨s, hs, -⟩ := hComplete.router
  have hShare : w.share ≠ w.router := ne_of_contracts ht hs (by simp)
  simp only [ShareToken.deposit, after_entering, after_bind, after_view, after_result,
    View.callee_eq_ok, ensure_eq_ok, forall_const, known_eq_ok, after_update, after_pure]
  intro t' ht' _ shares _ _ router hPlace
  obtain rfl : t = t' := storage_unique ht ht'
  obtain rfl : w.router = router := Option.some.inj (hKnown.symm.trans hPlace)
  refine After.mono (Router.after_handleDeposit_stocks (by exact hReady) hShare (by rfl) hBack
    hRouter hCaller) ?_
  rintro _ v ⟨config, minted, hGet, hEvent, hStocks⟩ t' t'' hOld _
  exact ⟨config.pool, minted, hEvent, (hStocks.then_put hOld).grows hGet⟩

namespace Router

variable (hReady : w.Ready u.chain) (hSelf : f.self = w.router) (hCaller : f.caller = user)
  (hUser : user ≠ w.router) (hBack : w.Shielded user back) (hRouter : w.custody ≠ w.router)
  (hOutside : w.custody ≠ user)

include hReady hSelf hCaller hUser hBack hRouter hOutside

theorem after_solverDepositByAssets_grows :
    After (solverDepositByAssets back f legs least receiver) u fun _ v =>
      ∀ leg ∈ legs, w.Grows u.chain v.chain leg.pool leg.amount := by
  simp only [solverDepositByAssets, after_guarded, after_bind, after_result, hSelf]
  intro s hs _ _ _ _ _ parts hParts
  have hSound : s.registry.Sound := routing_of hs ▸ hReady.agrees.registry
  obtain ⟨hLegs, hKnown⟩ := resolveAll_spec hSound hParts
  have hWork : w.Engaged user ⟨w.router, f.caller, w.router :: f.locked⟩ u.chain :=
    ⟨hReady, kind?_of_contract? hs, rfl, hCaller, hUser, List.mem_cons_self⟩
  refine After.mono (after_solverDeposit_stocks (by exact hWork) hBack hs hRouter hOutside ?_)
    fun _ v hStocks leg hLeg => ?_
  · exact List.pairwise_map.2 (resolveAll_apart hSound hParts)
  · rw [← hLegs] at hLeg
    obtain ⟨part, hPart, rfl⟩ := List.mem_map.1 hLeg
    obtain ⟨minted, -, hStocked⟩ := hStocks _ (List.mem_map_of_mem hPart)
    exact hStocked.grows (routing_of hs ▸ (hKnown part hPart).1)

theorem after_solverDepositByShares_grows :
    After (solverDepositByShares back f legs least receiver) u fun _ v =>
      ∀ leg ∈ legs, leg.amount ≠ 0 ∧
        u.chain.balance leg.pool w.custody + leg.amount ≤ v.chain.balance leg.pool w.custody := by
  simp only [solverDepositByShares, after_guarded, after_bind, after_view, after_result, hSelf]
  intro s hs _ _ _ _ _ parts hParts purchases hPurchases
  have hSound : s.registry.Sound := routing_of hs ▸ hReady.agrees.registry
  obtain ⟨hLegs, -⟩ := resolveAll_spec hSound hParts
  have hSame := purchasesOfShares_parts hPurchases
  have hWork : w.Engaged user ⟨w.router, f.caller, w.router :: f.locked⟩ u.chain :=
    ⟨hReady, kind?_of_contract? hs, rfl, hCaller, hUser, List.mem_cons_self⟩
  refine After.mono (after_solverDeposit_stocks (by exact hWork) hBack hs hRouter hOutside ?_)
    fun _ v hStocks leg hLeg => ?_
  · have hApart := resolveAll_apart hSound hParts
    rwa [← hSame, List.pairwise_map] at hApart
  · refine ⟨resolveAll_some hParts leg hLeg, ?_⟩
    rw [← hLegs, ← hSame, List.map_map] at hLeg
    obtain ⟨p, hp, rfl⟩ := List.mem_map.1 hLeg
    obtain ⟨minted, hEnough, hStocked⟩ := hStocks p hp
    exact hStocked.gained ▸ Nat.add_le_add_left hEnough _

end Router

end Entries

/-- A deposit brings shares of each pool that it goes to into custody, unless a synthetic adapter
swallows the amount. Legs that name shares bring in at least these. -/
theorem WiredRun.deposits_reach_custody {w : Wiring} {c : Chain} (hRun : WiredRun w c)
    (hComplete : w.Complete c) {caller : Digest} {target : Address} {command : Command}
    {out : Outcome} (hCall : c.submit (.account caller) target command = .ok out) :
    (∀ assets receiver, target = w.share → command = .share (.deposit assets receiver) →
      ∃ pool minted, (w.router, .deposited (.account caller) receiver pool assets minted) ∈
        out.events ∧ w.Grows c out.chain pool assets) ∧
    (∀ legs least receiver, target = w.router →
      command = .router (.solverDepositByAssets legs least receiver) →
        ∀ leg ∈ legs, w.Grows c out.chain leg.pool leg.amount) ∧
    ∀ legs least receiver, target = w.router →
      command = .router (.solverDepositByShares legs least receiver) →
        ∀ leg ∈ legs, leg.amount ≠ 0 ∧
          c.balance leg.pool w.custody + leg.amount ≤ out.chain.balance leg.pool w.custody := by
  have hReady := hRun.ready (hRun.router_place hComplete)
  obtain ⟨q, hq, -⟩ := hComplete.custody
  obtain ⟨s, hs, -⟩ := hComplete.router
  obtain ⟨t, ht, -⟩ := hComplete.share
  have hRouter : w.custody ≠ w.router := ne_of_contracts hq hs (by simp)
  have hShare : w.share ≠ w.router := ne_of_contracts ht hs (by simp)
  have hFree := hRun.account_free caller
  have hOutside : w.custody ≠ .account caller := (ne_of_contract? hq hFree).symm
  have hUser : Address.account caller ≠ w.router := ne_of_contract? hs hFree
  have hBack : w.Shielded (.account caller) c.callback := Wiring.shielded_nested hUser _
  refine ⟨?_, ?_, ?_⟩
  · rintro assets receiver rfl rfl
    have hBack : w.Shielded w.share c.callback := Wiring.shielded_nested hShare _
    have hAfter : After ((Command.share (.deposit assets receiver)).run c.callback w.share
        (.account caller)) { chain := c } fun _ v => ∃ pool minted,
          (w.router, .deposited (.account caller) receiver pool assets minted) ∈ v.events ∧
            w.Grows c v.chain pool assets :=
      after_map.2 (ShareToken.after_deposit_grows hComplete hReady hBack hRouter hOutside)
    exact of_submit hAfter hCall
  · rintro legs least receiver rfl rfl
    have hAfter : After ((Command.router (.solverDepositByAssets legs least receiver)).run
        c.callback w.router (.account caller)) { chain := c } fun _ v =>
          ∀ leg ∈ legs, w.Grows c v.chain leg.pool leg.amount :=
      after_map.2 (Router.after_solverDepositByAssets_grows hReady (by rfl) (by rfl) hUser hBack
        hRouter hOutside)
    exact of_submit hAfter hCall
  · rintro legs least receiver rfl rfl
    have hAfter : After ((Command.router (.solverDepositByShares legs least receiver)).run
        c.callback w.router (.account caller)) { chain := c } fun _ v =>
          ∀ leg ∈ legs, leg.amount ≠ 0 ∧
            c.balance leg.pool w.custody + leg.amount ≤ v.chain.balance leg.pool w.custody :=
      after_map.2 (Router.after_solverDepositByShares_grows hReady (by rfl) (by rfl) hUser hBack
        hRouter hOutside)
    exact of_submit hAfter hCall

/-- Deploy a standard treasury with one pool, a synthetic adapter whose shares are worth 2 each, and
give a solver stable that the router may take. -/
def Standard.doubled : List Action :=
  opening 0 { admin := .account 0 } ++
    [.deploy 0 (.synthetic (.account 0) stable custody),
      .call 0 router (.router (.registerAdapter pool pool)),
      .call 0 router (.router (.addPool pool weightScale)),
      .call 0 router (.router (.grantRole Roles.solver (.account 1))),
      .call 0 pool (.strategy (.setRate (2 * rateScale))),
      .call 0 stable (.stable (.mint (.account 1) 100)),
      .call 1 stable (.token (.approve router 100))]

/-- Of 3 that a solver deposits, 2 are worth a share. -/
theorem WiredRun.deposits_reach_custody_grown : ∃ c out,
    WiredRun Standard.places c ∧ Standard.places.Complete c ∧
      c.submit (.account 1) Standard.router (.router
        (.solverDepositByAssets [⟨Standard.pool, 3⟩] 0 (.account 1))) = .ok out ∧
      ¬c.Swallows Standard.pool 3 ∧
      c.balance Standard.pool Standard.custody <
        out.chain.balance Standard.pool Standard.custody := by
  have hEnd : (Standard.places.follow {} Standard.doubled).any (fun c =>
      Standard.places.completes c && (c.submit (.account 1) Standard.router (.router
        (.solverDepositByAssets [⟨Standard.pool, 3⟩] 0 (.account 1)))).toOption.any fun _ =>
          decide ((c.routing Standard.router).registry.get? Standard.pool =
            some ⟨Standard.pool, Standard.pool, weightScale, .active⟩) &&
          !decide (c.Swallows Standard.pool 3)) = true := by decide +kernel
  obtain ⟨c, out, hRun, hComplete, hCall, hHolds⟩ := Wiring.exists_submit hEnd
  simp only [Bool.and_eq_true, decide_eq_true_eq, Bool.not_eq_true', decide_eq_false_iff_not]
    at hHolds
  obtain ⟨hConfig, hWorth⟩ := hHolds
  obtain ⟨-, hLegs, -⟩ := deposits_reach_custody hRun hComplete hCall
  obtain ⟨config, hGet, -, hGrows⟩ := hLegs _ 0 (.account 1) (by rfl) (by rfl) _ List.mem_cons_self
  obtain rfl := Option.some.inj (hConfig.symm.trans hGet)
  exact ⟨c, out, hRun, hComplete, hCall, hWorth, hGrows.2 hWorth⟩

/-- An account deposits 1 into an empty treasury whose pool has shares that are worth 2 each. It
gets a share of the treasury for it, and the custody contract gets none of the pool. -/
theorem WiredRun.deposit_swallowed : ∃ c out minted,
    WiredRun Standard.places c ∧ Standard.places.Complete c ∧
      c.submit (.account 1) Standard.share (.share (.deposit 1 (.account 1))) = .ok out ∧
      (Standard.router, .deposited (.account 1) (.account 1) Standard.pool 1 minted) ∈ out.events ∧
      c.balance Standard.share (.account 1) < out.chain.balance Standard.share (.account 1) ∧
      ¬c.balance Standard.pool Standard.custody <
        out.chain.balance Standard.pool Standard.custody := by
  have hEnd : (Standard.places.follow {} Standard.doubled).any (fun c =>
      Standard.places.completes c && (c.submit (.account 1) Standard.share
        (.share (.deposit 1 (.account 1)))).toOption.any fun out =>
          decide ((Standard.router, Event.deposited (.account 1) (.account 1) Standard.pool 1 0) ∈
            out.events) &&
          decide (c.balance Standard.share (.account 1) <
            out.chain.balance Standard.share (.account 1)) &&
          !decide (c.balance Standard.pool Standard.custody <
            out.chain.balance Standard.pool Standard.custody)) = true := by decide +kernel
  obtain ⟨c, out, hRun, hComplete, hCall, hHolds⟩ := Wiring.exists_submit hEnd
  simp only [Bool.and_eq_true, decide_eq_true_eq, Bool.not_eq_true', decide_eq_false_iff_not]
    at hHolds
  obtain ⟨⟨hEvent, hShares⟩, hCustody⟩ := hHolds
  exact ⟨c, out, 0, hRun, hComplete, hCall, hEvent, hShares, hCustody⟩

end Treasury
