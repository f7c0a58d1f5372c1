import Treasury.Proofs.AgreementRun
import Treasury.Proofs.Allowances
import Treasury.Proofs.Excess

/-! Pools and the fee ledger. A deposit costs its payer what it is worth, and a pool pays for
shares. Between the two the router has no part in it: what others trade with pools adds nothing to
the excess. -/
namespace Treasury

open Exec Chain

namespace Wiring

variable {w : Wiring} {c c' : Chain} {a : Address} {u v x : World}

/-- Only a stable token stands at the place of the stable token, and only a router at that of the
router. -/
structure Placed (w : Wiring) (c : Chain) : Prop where
  stable : ∀ k, c.kind? w.stable = some k → k = .stable
  router : ∀ k, c.kind? w.router = some k → k = .router

theorem Kept.placed (h : w.Kept c) : w.Placed c := by
  constructor
  · intro k hk
    obtain ⟨x, hx, rfl⟩ := Option.map_eq_some_iff.1 hk
    exact (h.admits _ _ hx).1 rfl
  · intro k hk
    obtain ⟨x, hx, rfl⟩ := Option.map_eq_some_iff.1 hk
    exact ((h.admits _ _ hx).2.2.1 rfl).1

theorem Placed.of_kinds (h : w.Placed c) (hKind : ∀ a, c'.kind? a = c.kind? a) : w.Placed c' :=
  ⟨fun k hk => h.stable k (hKind _ ▸ hk), fun k hk => h.router k (hKind _ ▸ hk)⟩

/-- Neither place is taken by a contract of another kind. -/
theorem Placed.ne (h : w.Placed c) {y : Contract} (hy : c.contract? a = some y)
    (hKind : y.kind ∉ [.stable, .router]) : a ≠ w.stable ∧ a ≠ w.router := by
  constructor
  · rintro rfl
    simp [h.stable _ (kind?_of_contract? hy)] at hKind
  · rintro rfl
    simp [h.router _ (kind?_of_contract? hy)] at hKind

/-- A contract of a kind that has no part in the fee ledger is replaced by one of its kind. -/
theorem Placed.calm_put (h : w.Placed c) {old new : Contract} (hOld : c.contract? a = some old)
    (hSame : new.kind = old.kind) (hKind : old.kind ∉ [.stable, .router]) :
    w.Calm c (c.put a new) := by
  refine Wiring.calm_put hOld (.inl (h.ne hOld hKind).1) ?_
  cases old <;> cases new <;> cases hSame <;> first | rfl | simp [Contract.kind] at hKind

theorem Placed.still_put (h : w.Placed u.chain) {old : Contract}
    (hOld : u.chain.contract? a = some old) (new : Contract) (hSame : new.kind = old.kind)
    (hKind : old.kind ∉ [.stable, .router]) : w.Still u { u with chain := u.chain.put a new } :=
  ⟨h.calm_put hOld hSame hKind, rfl⟩

/-- An entry point that does nothing but change the storage of a contract of such a kind. -/
theorem Placed.after_amend_still (h : w.Placed u.chain) {σ : Type} [Storage σ]
    {caller self : Address} {entry : String} {change : σ → Result σ}
    (hSame : ∀ s t : σ, (Storage.wrap t).kind = (Storage.wrap s).kind)
    (hKind : ∀ s : σ, (Storage.wrap s).kind ∉ [.stable, .router]) :
    After (amend caller self entry change) u fun _ v => w.Still u v := by
  simp only [amend, after_entering, after_bind, after_view, View.callee_eq_ok, after_result,
    after_put]
  intro s hOld t _
  exact (Placed.still_put (by exact h) (by exact hOld) _ (hSame s t) (hKind s)).of_entered

/-- Somebody sends a token to a taker. It adds to the excess only if a pool pays the router. -/
structure Remits (w : Wiring) (taker : Address) (u v : World) : Prop where
  outside : ¬w.Paying u → w.Shifts 0 u v
  inside : w.Paying u → taker = w.router → ∃ n, w.Receives n u v

namespace Remits

variable {taker : Address}

theorem of_sends {giver t : Address} {n : Amount} (h : w.Sends giver t taker n u v)
    (hGiver : giver ≠ w.router) : w.Remits taker u v := by
  refine ⟨h.shifts_none hGiver, fun hPaying hTaker => ?_⟩
  subst hTaker
  exact h.receives hGiver hPaying

theorem after_still (h : w.Remits taker v x) (hFirst : w.Still u v) : w.Remits taker u x := by
  refine ⟨fun hPaying => ?_, fun hPaying hTaker => ?_⟩
  · exact (h.outside (mt hFirst.paying.1 hPaying)).after_none hFirst.shifts
  · obtain ⟨n, hReceives⟩ := h.inside (hFirst.paying.2 hPaying) hTaker
    exact ⟨n, hReceives.after_still hFirst⟩

theorem of_entered {caller callee : Address} {entry : String}
    (h : w.Remits taker { u with marks := u.marks ++ [.entered caller callee entry] } v)
    (hOther : caller ≠ w.router ∨ entry ≠ "withdraw_from_strategy") :
    w.Remits taker u { v with marks := v.marks ++ [.left callee] } := by
  refine ⟨fun hPaying => ?_, fun hPaying hTaker => ?_⟩
  · exact (h.outside (mt (paying_entered hOther).1 hPaying)).of_entered
  · obtain ⟨n, hReceives⟩ := h.inside ((paying_entered hOther).2 hPaying) hTaker
    exact ⟨n, hReceives.of_entered⟩

end Remits

end Wiring

section Pools

variable {w : Wiring} {u : World} {self caller receiver owner : Address} {n shares : Amount}

theorem Yield.after_deposit_shifts (hPlaced : w.Placed u.chain) (hCaller : caller ≠ w.router)
    (hPaying : ¬w.Paying u) :
    After (Yield.deposit self caller n receiver) u fun _ v => w.Shifts 0 u v := by
  simp only [Yield.deposit, after_entering, after_bind, after_view, after_result,
    View.callee_eq_ok, ensure_eq_ok, forall_const, known_eq_ok, after_update, after_pure]
  intro vault hVault _ minted _ _ asset _
  have hSelf := (hPlaced.ne hVault (by simp [Contract.kind])).2
  refine w.after_transferFrom_collects.mono fun _ v hTake vault' _ hVault' hMint => ?_
  obtain ⟨l, -, ⟨⟩⟩ := Result.bind_eq_ok.1 hMint
  have hTaken := hTake.shifts_none hSelf hCaller
    (Wiring.not_paying_entered hPaying _ _ (by decide))
  have hStill := (hPlaced.of_kinds hTake.move.alike.kind?).still_put (u := v) hVault'
    (.yieldVault { vault' with ledger := l }) rfl (by simp [Contract.kind])
  exact (hTaken.then_none hStill.shifts).of_entered

theorem Yield.after_redeem_remits (hPlaced : w.Placed u.chain) :
    After (Yield.redeem self caller shares receiver owner) u fun _ v => w.Remits receiver u v := by
  simp only [Yield.redeem, after_entering, after_bind, after_view, after_result,
    View.callee_eq_ok, ensure_eq_ok, forall_const, known_eq_ok, after_update, after_pure]
  intro vault hVault _ assets _ vault' left hVault' _ asset _
  have hSelf := (hPlaced.ne hVault (by simp [Contract.kind])).2
  have hStill := hPlaced.still_put
    (u := { u with marks := u.marks ++ [.entered caller self "redeem"] }) hVault'
    (.yieldVault left) rfl (by simp [Contract.kind])
  refine w.after_transfer_sends.mono fun _ v hSend => ?_
  exact ((Wiring.Remits.of_sends hSend hSelf).after_still hStill).of_entered (.inr (by decide))

theorem Yield.after_accrueYield_shifts (hPlaced : w.Placed u.chain) (hCaller : caller ≠ w.router)
    (hPaying : ¬w.Paying u) :
    After (Yield.accrueYield self caller n) u fun _ v => w.Shifts 0 u v := by
  simp only [Yield.accrueYield, after_entering, after_bind, after_view, after_result,
    View.callee_eq_ok, ensure_eq_ok, forall_const, known_eq_ok]
  intro vault hVault _ asset _
  have hSelf := (hPlaced.ne hVault (by simp [Contract.kind])).2
  refine w.after_transferFrom_collects.mono fun _ v hTake => ?_
  have hTaken := hTake.shifts_none hSelf hCaller
    (Wiring.not_paying_entered hPaying _ _ (by decide))
  exact hTaken.of_entered

namespace Strategy

theorem FixedRate.after_withdraw_remits {s : FixedRate} (hPlaced : w.Placed u.chain) :
    After (s.withdraw self caller shares) u fun _ v => w.Remits caller u v := by
  simp only [FixedRate.withdraw, after_bind, after_view, after_result, ensure_eq_ok, forall_const,
    known_eq_ok, after_update, after_pure]
  intro _ n _ t _ _ _ _ s' _ hPool hTake
  obtain ⟨l, -, ⟨⟩⟩ := Result.bind_eq_ok.1 hTake
  have hStill := hPlaced.still_put hPool (.fixedRate { s' with ledger := l }) rfl
    (by simp [Contract.kind])
  refine w.after_transfer_sends.mono fun _ v hSend => ?_
  exact (Wiring.Remits.of_sends hSend (hPlaced.ne hPool (by simp [Contract.kind])).2).after_still
    hStill

theorem Synthetic.after_withdraw_remits {s : Synthetic} (hPlaced : w.Placed u.chain) :
    After (s.withdraw self caller shares) u fun _ v => w.Remits caller u v := by
  simp only [Synthetic.withdraw, after_bind, after_view, after_result, ensure_eq_ok, forall_const,
    known_eq_ok, after_update]
  intro _ due _ n _ t _ _ _ _ s' _ hPool hTake
  obtain ⟨l, -, ⟨⟩⟩ := Result.bind_eq_ok.1 hTake
  have hStill := hPlaced.still_put hPool (.synthetic { s' with ledger := l }) rfl
    (by simp [Contract.kind])
  refine w.after_transfer_sends.mono fun _ v hSend _ _ => ?_
  exact (Wiring.Remits.of_sends hSend (hPlaced.ne hPool (by simp [Contract.kind])).2).after_still
    hStill

/-- The vault of a wrapped-vault adapter pays. It is no stable token, so that its shares do not
matter. -/
theorem Wrapped.after_withdraw_remits {s : Wrapped} (hPlaced : w.Placed u.chain)
    (hVaulted : u.chain.Vaulted) (hAdapter : u.chain.contract? self = some (.wrapped s)) :
    After (s.withdraw self caller shares) u fun _ v => w.Remits caller u v := by
  simp only [Wrapped.withdraw, after_bind, after_result, ensure_eq_ok, forall_const, known_eq_ok]
  intro _ vault hVault
  -- The adapter takes its caller's pool shares, so the pool may not be the stable token itself.
  have hToken : vault ≠ w.stable := by
    rintro rfl
    have hPool : u.chain.pool? self = some w.stable := by
      rw [pool?, hAdapter, Option.bind_some]
      exact hVault
    have hKind := hPlaced.stable _ (hVaulted _ _ (kind?_of_contract? hAdapter) hPool)
    cases hKind
  refine w.after_transferFrom_collects.mono fun _ v hTake => ?_
  refine (Yield.after_redeem_remits (hPlaced.of_kinds hTake.move.alike.kind?)).mono ?_
  exact fun _ x hRemits => hRemits.after_still (hTake.still hToken)

/-- What a pool pays for shares, in the middle of the entry point. -/
theorem after_withdraw_body (hPlaced : w.Placed u.chain) (hVaulted : u.chain.Vaulted)
    {adapter : Address} {Q : Amount → World → Prop}
    (h : ∀ n v, w.Remits caller
      { u with marks := u.marks ++ [.entered caller adapter "withdraw_from_strategy"] } v →
        Q n { v with marks := v.marks ++ [.left adapter] }) :
    After (Strategy.withdraw adapter caller shares) u Q := by
  simp only [Strategy.withdraw, after_entering, after_bind, after_view, View.contract_eq_ok]
  intro x hx
  cases x with
  | fixedRate s => exact (FixedRate.after_withdraw_remits (by exact hPlaced)).mono h
  | synthetic s => exact (Synthetic.after_withdraw_remits (by exact hPlaced)).mono h
  | wrapped s =>
    exact After.mono (Wrapped.after_withdraw_remits (by exact hPlaced) (by exact hVaulted)
      (by exact hx)) h
  | stable | share | yieldVault | custody | router | registry | roles | ledger =>
    exact after_throw.2 trivial

/-- Others withdraw from pools. -/
theorem after_withdraw_shifts (hPlaced : w.Placed u.chain) (hVaulted : u.chain.Vaulted)
    (hCaller : caller ≠ w.router) (hPaying : ¬w.Paying u) {adapter : Address} :
    After (Strategy.withdraw adapter caller shares) u fun _ v => w.Shifts 0 u v :=
  after_withdraw_body hPlaced hVaulted fun _ _ hRemits =>
    (hRemits.of_entered (.inl hCaller)).outside hPaying

/-- The router withdraws from a pool. -/
theorem after_withdraw_receives (hPlaced : w.Placed u.chain) (hVaulted : u.chain.Vaulted)
    {adapter : Address} :
    After (Strategy.withdraw adapter w.router shares) u fun _ v => ∃ n, w.Receives n u v := by
  refine after_withdraw_body hPlaced hVaulted fun _ v hRemits => ?_
  obtain ⟨n, hReceives⟩ := hRemits.inside
    (by simp [Wiring.Paying, Wiring.paysOut]) rfl
  exact ⟨n, hReceives.of_entered⟩

theorem FixedRate.after_fund_shifts (hPlaced : w.Placed u.chain) (hCaller : caller ≠ w.router)
    (hPaying : ¬w.Paying u) :
    After (FixedRate.fund self caller n) u fun _ v => w.Shifts 0 u v := by
  simp only [FixedRate.fund, after_entering, after_bind, after_view, after_result,
    View.callee_eq_ok, ensure_eq_ok, forall_const, known_eq_ok]
  intro s hPool _ t _
  have hSelf := (hPlaced.ne hPool (by simp [Contract.kind])).2
  refine w.after_transferFrom_collects.mono fun _ v hTake => ?_
  have hTaken := hTake.shifts_none hSelf hCaller
    (Wiring.not_paying_entered hPaying _ _ (by decide))
  exact hTaken.of_entered

end Strategy

end Pools

end Treasury
