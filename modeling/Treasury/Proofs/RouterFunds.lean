import Treasury.Proofs.PoolFunds

/-! What the router does with one pool, on the fee ledger. A deposit takes exactly the stable that
it is made for, whatever the adapter is set to: the router allows it that much of the one token, and
nobody can have the router reinvest fees in the meantime. A withdrawal brings in exactly what the
router measures. -/
namespace Treasury

open Exec Chain

namespace Wiring

/-- A treasury between calls, and between the steps of its router: the wiring is kept, router and
custody contract agree about pools, and the router allows nobody anything. -/
structure Ready (w : Wiring) (c : Chain) : Prop extends w.Kept c where
  agrees : w.Agrees c
  vaulted : c.Vaulted
  reserved : ∀ t spender, c.kind? t ≠ some .ledger → c.allowance t w.router spender = 0

/-- Calls that come back to the router add nothing to the excess, and fail while it is at work. -/
structure Shielded (w : Wiring) (user : Address) (back : Router.Callback) : Prop
    extends Router.CallsBack user back where
  none : ∀ f u, w.Ready u.chain → ¬w.Paying u →
    ∀ command ∈ [Router.Command.pause, .reinvestFees],
      After (back f command) u fun _ v => w.Shifts 0 u v
  locked : ∀ f u, w.Kept u.chain → w.router ∈ f.locked →
    ∀ command ∈ [Router.Command.pause, .reinvestFees], After (back f command) u fun _ _ => False

variable {w : Wiring} {user : Address} {c c' : Chain}

/-- A flow leaves the treasury ready for the next one. -/
theorem Ready.flow (h : w.Ready c) (hUser : user ≠ w.router) (hFlow : Flow user c c') :
    w.Ready c' where
  toKept := h.toKept.effect (.flow hFlow)
  agrees := Bond.Agrees.flow (b := w.bond) h.agrees hFlow
  vaulted := (Effect.flow hFlow).vaulted h.vaulted
  reserved t spender hKind := by
    rw [hFlow.kind?] at hKind
    have hLess : c'.allowance t w.router spender ≤ c.allowance t w.router spender :=
      hFlow.allowance_le hUser.symm
    rw [h.reserved t spender hKind] at hLess
    exact Nat.le_zero.1 hLess

/-- Nobody takes anything from the router. -/
theorem Ready.nothing_collected (h : w.Ready c) {t spender taker : Address} {n : Amount}
    (hMove : c.Moves t (.transferFrom spender w.router taker n) c') : n = 0 := by
  have hSpent := hMove.allowance_transferFrom t w.router spender
  rw [h.reserved _ _ hMove.kind_ne] at hSpent
  simp only [and_self, if_true, Nat.add_eq_zero_iff] at hSpent
  exact hSpent.2

/-- If it is the router that an adapter charges, then in stable. -/
def ChargesStable (w : Wiring) (c : Chain) (adapter payer : Address) (n : Amount) : Prop :=
  payer = w.router → n ≠ 0 →
    ∀ t c', c.Moves t (.transferFrom adapter payer adapter n) c' → t = w.stable

end Wiring

/-- In a wired run a treasury is ready between calls. -/
theorem WiredRun.ready {w : Wiring} {c : Chain} (h : WiredRun w c)
    (hPlace : ∃ d, w.router = .contract d) : w.Ready c :=
  { h.kept with
    agrees := h.agrees hPlace
    vaulted := h.run.vaulted
    reserved := fun t spender hKind => by
      obtain ⟨d, hd⟩ := hPlace
      exact hd ▸ h.allowance_eq_zero hKind }

section Deposits

variable {w : Wiring} {user self caller : Address} {u : World} {n : Amount} {back : Router.Callback}

namespace Strategy

theorem FixedRate.after_deposit_shifts {s : FixedRate} (hPlaced : w.Placed u.chain)
    (hPool : u.chain.contract? self = some (.fixedRate s)) (hPaying : ¬w.Paying u)
    (hToken : w.ChargesStable u.chain self caller n) :
    After (s.deposit self caller n) u fun _ v => w.Shifts (w.cost caller n) u v := by
  simp only [FixedRate.deposit, after_bind, after_result, ensure_eq_ok, forall_const, known_eq_ok,
    after_update, after_pure]
  intro hAmount _ shares _ _ t _
  have hSelf := (hPlaced.ne hPool (by simp [Contract.kind])).2
  refine (w.after_transferFrom_collects).mono fun _ v hTake custody _ s' _ hPool' hMint => ?_
  obtain ⟨l, -, ⟨⟩⟩ := Result.bind_eq_ok.1 hMint
  have hStill := (hPlaced.of_kinds hTake.move.alike.kind?).still_put (u := v) hPool'
    (.fixedRate { s' with ledger := l }) rfl (by simp [Contract.kind])
  exact (hTake.shifts_charged hSelf hPaying fun h => hToken h hAmount _ _ hTake.move).then_none
    hStill.shifts

/-- The call back of a synthetic adapter, if there is one, adds nothing. There is none while the
router deposits. -/
theorem Synthetic.after_callBack_shifts {s : Synthetic} {locked : List Address}
    (hBack : w.Shielded user back) (hKept : w.Kept u.chain)
    (hReady : w.router ∈ locked ∨ w.Ready u.chain)
    (hSelf : u.chain.contract? self = some (.synthetic s)) (hPaying : ¬w.Paying u) :
    After (s.callBack back locked self) u fun _ v =>
      w.Shifts 0 u v ∧ w.Placed v.chain ∧ (w.router ∈ locked → v = u) := by
  have hFlow : After (s.callBack back locked self) u fun _ v => Flow user u.chain v.chain :=
    after_callBack hBack.toCallsBack (acts_of_contract hSelf)
  unfold callBack at hFlow ⊢
  split at hFlow
  · exact after_pure.2 ⟨.refl w u, hKept.placed, fun _ => rfl⟩
  · next target _ =>
    have hCommand : (if s.callbackPauses then Router.Command.pause else .reinvestFees) ∈
        [Router.Command.pause, .reinvestFees] := by
      split <;> simp
    intro a v hRun
    have hNone (hLocked : w.router ∈ locked) : False :=
      hBack.locked ⟨target, self, locked⟩ u hKept hLocked _ hCommand a v hRun
    refine ⟨?_, hKept.placed.of_kinds (hFlow a v hRun).kind?, fun hLocked => (hNone hLocked).elim⟩
    exact hBack.none ⟨target, self, locked⟩ u (hReady.resolve_left hNone) hPaying _ hCommand a v
      hRun

theorem Synthetic.after_deposit_shifts {s : Synthetic} {locked : List Address}
    (hBack : w.Shielded user back) (hKept : w.Kept u.chain)
    (hReady : caller = w.router ∧ w.router ∈ locked ∨ caller ≠ w.router ∧ w.Ready u.chain)
    (hPool : u.chain.contract? self = some (.synthetic s)) (hPaying : ¬w.Paying u)
    (hToken : w.ChargesStable u.chain self caller n) :
    After (s.deposit back locked self caller n) u fun _ v => w.Shifts (w.cost caller n) u v := by
  simp only [Synthetic.deposit, after_bind, after_view, after_result, View.load_eq_ok,
    ensure_eq_ok, forall_const, known_eq_ok, after_update, after_pure]
  intro hAmount _ _
  refine (after_callBack_shifts hBack hKept (hReady.imp And.right And.right) hPool hPaying).mono ?_
  rintro _ v ⟨hCalled, hPlaced, hSame⟩ s' hPool' t _
  have hSelf := (hPlaced.ne hPool' (by simp [Contract.kind])).2
  refine (w.after_transferFrom_collects).mono fun _ x hTake => ?_
  intro due _ shares _ custody _ s'' _ hPool'' hMint _ _
  obtain ⟨l, -, ⟨⟩⟩ := Result.bind_eq_ok.1 hMint
  have hStill := (hPlaced.of_kinds hTake.move.alike.kind?).still_put (u := x) hPool''
    (.synthetic { s'' with ledger := l }) rfl (by simp [Contract.kind])
  -- The call back fails while the router deposits, so the allowance is the one that it has left.
  have hStable (hCaller : caller = w.router) : t = w.stable := by
    obtain ⟨-, hLocked⟩ := hReady.resolve_right fun hOther => hOther.1 hCaller
    exact hToken hCaller hAmount t _ (hSame hLocked ▸ hTake.move)
  have hCharged := hTake.shifts_charged hSelf (mt hCalled.paying.1 hPaying) hStable
  exact (hCharged.after_none hCalled).then_none hStill.shifts

/-- A wrapped-vault adapter hands on what it has taken. -/
theorem Wrapped.after_deposit_shifts {s : Wrapped} (hPlaced : w.Placed u.chain)
    (hAdapter : u.chain.contract? self = some (.wrapped s)) (hPaying : ¬w.Paying u)
    (hToken : w.ChargesStable u.chain self caller n) :
    After (s.deposit self caller n) u fun _ v => w.Shifts (w.cost caller n) u v := by
  simp only [Wrapped.deposit, after_bind, after_result, ensure_eq_ok, forall_const, known_eq_ok,
    after_pure]
  intro hAmount _ vault _ stable _
  have hSelf := (hPlaced.ne hAdapter (by simp [Contract.kind])).2
  refine (w.after_transferFrom_collects).mono fun _ u₁ hTake => ?_
  have hCharged :=
    hTake.shifts_charged hSelf hPaying fun h => hToken h hAmount _ _ hTake.move
  refine (w.after_approve_still).mono ?_
  rintro _ u₂ ⟨hAllow, hStill⟩ custody -
  have hSoFar := hCharged.then_none hStill.shifts
  have hPlaced' := (hPlaced.of_kinds hTake.move.alike.kind?).of_kinds hAllow.alike.kind?
  refine (Yield.after_deposit_shifts hPlaced' hSelf (mt hSoFar.paying.1 hPaying)).mono ?_
  intro _ u₃ hHandedOn
  refine (w.after_approve_still).mono ?_
  rintro _ u₄ ⟨-, hEnd⟩
  exact (hSoFar.then_none hHandedOn).then_none hEnd.shifts

/-- A deposit through an adapter of any kind costs its caller the amount. -/
theorem after_deposit_shifts {locked : List Address} {adapter : Address}
    (hBack : w.Shielded user back) (hKept : w.Kept u.chain)
    (hReady : caller = w.router ∧ w.router ∈ locked ∨ caller ≠ w.router ∧ w.Ready u.chain)
    (hPaying : ¬w.Paying u)
    (hToken : w.ChargesStable u.chain adapter caller n) :
    After (Strategy.deposit back locked adapter caller n) u fun _ v =>
      w.Shifts (w.cost caller n) u v := by
  simp only [Strategy.deposit, after_entering, after_bind, after_view, View.contract_eq_ok]
  intro x hx
  have hPaying' := Wiring.not_paying_entered hPaying caller adapter
    (by decide : "deposit_into_strategy" ≠ "withdraw_from_strategy")
  cases x with
  | fixedRate s =>
    exact After.mono (FixedRate.after_deposit_shifts (by exact hKept.placed) (by exact hx) hPaying'
      (by exact hToken)) fun _ _ => .of_entered
  | synthetic s =>
    exact After.mono (Synthetic.after_deposit_shifts hBack (by exact hKept) (by exact hReady)
      (by exact hx) hPaying' (by exact hToken)) fun _ _ => .of_entered
  | wrapped s =>
    exact After.mono (Wrapped.after_deposit_shifts (by exact hKept.placed) (by exact hx) hPaying'
      (by exact hToken)) fun _ _ => .of_entered
  | stable | share | yieldVault | custody | router | registry | roles | ledger =>
    exact after_throw.2 trivial

end Strategy

end Deposits

namespace Wiring

/-- The router of a treasury in the middle of a call of its own. Nobody is paying it. -/
structure AtWork (w : Wiring) (f : Router.Frame) (u : World) : Prop where
  ready : w.Ready u.chain
  quiet : ¬w.Paying u
  stands : u.chain.kind? w.router = some .router
  self : f.self = w.router
  locked : w.router ∈ f.locked

/-- The router goes on with its work. -/
theorem AtWork.flow {w : Wiring} {f : Router.Frame} {u v : World} {user : Address} {d : Int}
    (h : w.AtWork f u) (hUser : user ≠ w.router) (hShifts : w.Shifts d u v)
    (hFlow : Flow user u.chain v.chain) : w.AtWork f v :=
  ⟨h.ready.flow hUser hFlow, mt hShifts.paying.1 h.quiet, (hFlow.kind? _).trans h.stands, h.self,
    h.locked⟩

end Wiring

namespace Router

variable {w : Wiring} {user : Address} {u : World} {f : Frame} {back : Callback}
  {config : Pool.Config}

/-- A deposit of the router's own stable takes exactly the amount. -/
theorem after_depositIntoPool_shifts {n : Amount} (h : w.AtWork f u) (hBack : w.Shielded user back)
    (hUser : user ≠ w.router) :
    After (depositIntoPool back f config n) u fun _ v => w.Shifts (-n) u v ∧ w.AtWork f v := by
  suffices hTaken : After (depositIntoPool back f config n) u fun _ v => w.Shifts (-n) u v from
    (hTaken.and (after_depositIntoPool hBack.toCallsBack)).mono fun _ _ hDone =>
      ⟨hDone.1, h.flow hUser hDone.1 hDone.2⟩
  simp only [depositIntoPool, after_bind, after_view, after_result, View.load_eq_ok, ensure_eq_ok,
    forall_const, known_eq_ok, after_pure, h.self]
  intro s hs quote _ _ custody _ _ _ stable hStable
  obtain ⟨-, hKnown, -⟩ := h.ready.router hs
  obtain rfl : w.stable = stable := Option.some.inj (hKnown.symm.trans hStable)
  refine w.after_approve_still.mono ?_
  rintro _ u₁ ⟨hAllow, hAllowed⟩
  -- The one allowance that the router has out is this one, and it is in stable.
  have hToken : w.ChargesStable u₁.chain config.adapter w.router n := fun _ hAmount t c hMove =>
    token_of_collected (fun t => h.ready.reserved t _) hAmount hAllow hMove
  refine (Strategy.after_deposit_shifts hBack (h.ready.toKept.alike hAllow.alike)
    (.inl ⟨rfl, h.locked⟩) (mt hAllowed.paying.1 h.quiet) hToken).mono ?_
  intro _ u₂ hTaken
  refine w.after_approve_still.mono ?_
  rintro _ v ⟨-, hEnd⟩ - _ _ - -
  rw [Wiring.cost, if_pos rfl] at hTaken
  exact (hTaken.after_none hAllowed.shifts).then_none hEnd.shifts

/-- The pool shares that the custody contract hands out are no stable. -/
theorem counted_ne_stable {c : Chain} {q : Custody} {pool : Address} (hReady : w.Ready c)
    (hq : c.contract? w.custody = some (.custody q)) (hSupports : q.supports pool = true) :
    pool ≠ w.stable := by
  rintro rfl
  have hAgree := hReady.agrees
  rw [Wiring.Agrees, keeping_of hq] at hAgree
  obtain ⟨found, -, hBound⟩ := hAgree.counted _ hSupports
  have hStable := hReady.placed.stable
  rcases (hAgree.served _ _ hBound).kind hReady.vaulted with hKind | hKind | hKind <;>
    cases hStable _ hKind

theorem after_transferShares_still (hReady : w.Ready u.chain) {pool recipient : Address}
    {shares : Amount} :
    After (Custody.transferShares w.custody w.router pool shares recipient) u fun _ v =>
      w.Still u v := by
  simp only [Custody.transferShares, after_entering, after_bind, after_view, after_result,
    View.callee_eq_ok, ensure_eq_ok, forall_const, after_emit]
  intro q hq _ _ hSupports _
  have hToken := counted_ne_stable hReady hq hSupports
  exact w.after_transfer_sends.mono fun _ v hSend => (hSend.still hToken).of_entered.announced _

/-- A withdrawal brings in what the router measures. -/
theorem after_withdrawShares_shifts {shares : Amount} (h : w.AtWork f u) (hUser : user ≠ w.router) :
    After (withdrawShares f config shares) u fun received v =>
      w.Shifts received u v ∧ w.AtWork f v := by
  suffices hPaid : After (withdrawShares f config shares) u fun received v =>
      w.Shifts received u v from
    (hPaid.and (after_withdrawShares user)).mono fun _ _ hDone =>
      ⟨hDone.1, h.flow hUser hDone.1 (.trade hDone.2)⟩
  simp only [withdrawShares, after_bind, after_view, after_result, View.load_eq_ok, ensure_eq_ok,
    forall_const, known_eq_ok, after_pure, h.self]
  intro s hs quote _ stable hStable before hBefore custody hCustody
  obtain ⟨-, hKnown, hKeeper, -⟩ := h.ready.router hs
  obtain rfl : w.stable = stable := Option.some.inj (hKnown.symm.trans hStable)
  obtain rfl : w.custody = custody := Option.some.inj (hKeeper.symm.trans hCustody)
  refine ((after_transferShares_still h.ready).and Custody.after_transferShares).mono ?_
  rintro _ u₁ ⟨hGiven, -, hGive⟩
  refine w.after_approve_still.mono ?_
  rintro _ u₂ ⟨hAllow, hAllowed⟩
  have hAlike := hGive.alike.trans hAllow.alike
  refine (Strategy.after_withdraw_receives (h.ready.placed.of_kinds hAlike.kind?)
    (h.ready.vaulted.alike hAlike)).mono ?_
  rintro reported u₃ ⟨n, hReceived⟩
  refine w.after_approve_still.mono ?_
  rintro _ v ⟨-, hEnd⟩ after hAfter _ _
  have hWhole := (hReceived.after_still (hGiven.trans hAllowed)).then_still hEnd
  have hMeasured : after - before = n := by
    rw [← Token.balanceOf_ok hBefore, ← Token.balanceOf_ok hAfter, hWhole.idle,
      Nat.add_sub_cancel_left]
  rw [hMeasured]
  exact hWhole.shifts

theorem after_withdrawValue_shifts {value : Amount} (h : w.AtWork f u) (hUser : user ≠ w.router) :
    After (withdrawValue f config value) u fun received v =>
      w.Shifts received u v ∧ w.AtWork f v := by
  simp only [withdrawValue, after_bind, after_view, after_result, ensure_eq_ok, forall_const,
    after_pure]
  intro shares _ _
  exact (after_withdrawShares_shifts h hUser).mono fun _ _ hDone _ => hDone

/-- The router takes stable. It takes none from itself, which it has not allowed. -/
theorem after_pullStable_shifts {owner : Address} {n : Amount} (h : w.AtWork f u)
    (hUser : user ≠ w.router) (hOwner : u.chain.Payer user f.self owner) :
    After (pullStable f owner n) u fun _ v => w.Shifts n u v ∧ w.AtWork f v := by
  suffices hPulled : After (pullStable f owner n) u fun _ v => w.Shifts n u v from
    (hPulled.and (after_pullStable hOwner)).mono fun _ _ hDone =>
      ⟨hDone.1, h.flow hUser hDone.1 (.trade hDone.2)⟩
  simp only [pullStable, after_bind, after_view, after_result, View.load_eq_ok, known_eq_ok, h.self]
  intro s hs stable hStable
  obtain ⟨-, hKnown, -⟩ := h.ready.router hs
  obtain rfl : w.stable = stable := Option.some.inj (hKnown.symm.trans hStable)
  refine w.after_transferFrom_collects.mono fun _ v hPull => ?_
  by_cases hOwn : owner = w.router
  · subst hOwn
    obtain rfl := h.ready.nothing_collected hPull.move
    simpa using hPull.shifts
  · exact hPull.shifts_pulled hOwn

/-- The router pays. -/
theorem after_payment_shifts {taker : Address} {n : Amount} (h : w.AtWork f u)
    (hUser : user ≠ w.router) :
    After (Token.transfer f.self w.stable taker n) u fun _ v =>
      w.Shifts (-n) u v ∧ w.AtWork f v := by
  rw [h.self]
  refine w.after_transfer_sends.mono fun _ v hSend => ?_
  have hPaid := hSend.shifts_paid h.quiet
  exact ⟨hPaid, h.flow hUser hPaid (.trade (.sent (.inr (.inl h.stands)) hSend.move))⟩

end Router

end Treasury
