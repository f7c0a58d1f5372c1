import Treasury.Proofs.Effect
import Treasury.Proofs.Standstill

/-! What routers do with one pool: deposits through its adapter, which may call a router back and
are flows, and withdrawals, which call nobody back and are trades. -/
namespace Treasury

open Exec Chain

/-- What the calls that come back to a router may do: they pause it or reinvest its fees in the
middle of a deposit, if it runs, or have it bind an adapter for a router that takes it for custody.
-/
structure Router.CallsBack (user : Address) (back : Router.Callback) : Prop where
  flow : ∀ f w, w.chain.Acts user f.caller → ∀ command ∈ [Router.Command.pause, .reinvestFees],
    After (back f command) w fun _ v => Flow user w.chain v.chain
  bind : ∀ f w pool adapter, w.chain.Acts user f.caller →
    After (back f (.registerAdapter pool adapter)) w fun _ v =>
      Router.Binds user pool adapter w.chain v.chain
  paused : ∀ f w, w.chain.Paused → ∀ command ∈ [Router.Command.pause, .reinvestFees],
    After (back f command) w fun _ _ => False

section Strategy

variable {May : Chain → Address → Prop} {user self caller : Address} {w : World}
  {back : Router.Callback}

namespace Strategy

theorem Synthetic.after_callBack {locked : List Address} {s : Synthetic}
    (hBack : Router.CallsBack user back) (hSelf : w.chain.Acts user self) :
    After (s.callBack back locked self) w fun _ v => Flow user w.chain v.chain := by
  unfold Synthetic.callBack
  split
  · exact after_pure.2 (.refl _)
  · next target _ =>
    apply hBack.flow ⟨target, self, locked⟩ w hSelf _
    split <;> simp

/-- At a standstill a synthetic adapter deposits only if it calls nobody back. -/
theorem Synthetic.after_callBack_paused {locked : List Address} {s : Synthetic}
    (hBack : Router.CallsBack user back) (hPaused : w.chain.Paused) :
    After (s.callBack back locked self) w fun _ v => v.chain = w.chain := by
  unfold Synthetic.callBack
  split
  · exact after_pure.2 rfl
  · next target _ =>
    refine (hBack.paused ⟨target, self, locked⟩ w hPaused _ ?_).mono fun _ _ => False.elim
    split <;> simp

/-- A synthetic adapter calls a router back, if it is set to, before it takes the amount. It issues
what it is set to, and may report more. -/
theorem Synthetic.after_deposit_moves {locked : List Address} {n : Amount} {s : Synthetic}
    {R : Chain → Prop} (hBack : After (s.callBack back locked self) w fun _ u => R u.chain) :
    After (s.deposit back locked self caller n) w fun minted v => ∃ c s' t due shares custodian c₁,
      R c ∧ n ≠ 0 ∧ c.contract? self = some (.synthetic s') ∧ s'.stable = some t ∧
        Rate.sharesForDeposit n s'.rate = .ok due ∧ s'.executed due = .ok shares ∧
        Amount.add shares s'.reportBonus = .ok minted.shares ∧
        c.Moves t (.transferFrom self caller self n) c₁ ∧
        c₁.PoolKeeps self (·.mint custodian shares) v.chain := by
  simp only [Synthetic.deposit, after_bind, after_view, after_result, View.load_eq_ok,
    ensure_eq_ok, forall_const, known_eq_ok, after_update, after_pure]
  intro hAmount _ _
  refine hBack.mono fun _ u hCalled => ?_
  intro s' hPool' t hStable
  refine Token.after_transferFrom.mono fun _ v hMove => ?_
  intro due hDue shares hShares custodian _ s'' _ hPool'' hMint reported hReport
  obtain ⟨l, hl, ⟨⟩⟩ := Result.bind_eq_ok.1 hMint
  exact ⟨u.chain, s', t, due, shares, custodian, v.chain, hCalled, hAmount, hPool', hStable, hDue,
    hShares, hReport, hMove, _, _, hPool'', .synthetic hl, rfl⟩

theorem Synthetic.after_deposit_lodges {locked : List Address} {n : Amount} {s : Synthetic}
    {R : Chain → Prop} (hBack : After (s.callBack back locked self) w fun _ u => R u.chain) :
    After (s.deposit back locked self caller n) w fun _ v =>
      ∃ c, R c ∧ c.Lodges self caller n v.chain := by
  refine (Synthetic.after_deposit_moves hBack).mono ?_
  rintro _ v ⟨c, s', t, due, shares, custodian, c₁, hCalled, -, hPool, hStable, hDue, hShares, -,
    hMove, hMint⟩
  exact ⟨c, hCalled, .own (.synthetic hPool hStable hDue hShares) hMove hMint⟩

/-- A deposit through an adapter of any kind follows what a call back does. -/
theorem after_deposit_lodges {locked : List Address} {adapter : Address} {n : Amount}
    {R : Chain → Prop} (hStart : R w.chain)
    (hBack : ∀ s u, u.chain = w.chain → w.chain.contract? adapter = some (.synthetic s) →
      After (s.callBack back locked adapter) u fun _ v => R v.chain) :
    After (Strategy.deposit back locked adapter caller n) w fun _ v =>
      ∃ c, R c ∧ c.Lodges adapter caller n v.chain := by
  simp only [Strategy.deposit, after_entering, after_bind, after_view, View.contract_eq_ok]
  intro x hx
  have hNow : ∀ v : World, w.chain.Lodges adapter caller n v.chain →
      ∃ c, R c ∧ c.Lodges adapter caller n v.chain :=
    fun _ hLodges => ⟨w.chain, hStart, hLodges⟩
  cases x with
  | fixedRate s => exact After.mono (FixedRate.after_deposit_lodges hx) fun _ => hNow
  | synthetic s => exact Synthetic.after_deposit_lodges (hBack s _ rfl hx)
  | wrapped s => exact After.mono (Wrapped.after_deposit_lodges hx) fun _ => hNow
  | stable | share | yieldVault | custody | router | registry | roles | ledger =>
    exact after_throw.2 trivial

/-- At a standstill a deposit through an adapter is a deal. -/
theorem after_deposit_paused {locked : List Address} {adapter : Address} {n : Amount}
    (hBack : Router.CallsBack user back) (hCaller : w.chain.Acts user caller)
    (hPaused : w.chain.Paused) :
    After (Strategy.deposit back locked adapter caller n) w fun _ v =>
      Deal May user w.chain v.chain := by
  have hCall : ∀ s u, u.chain = w.chain → w.chain.contract? adapter = some (.synthetic s) →
      After (s.callBack back locked adapter) u fun _ v => v.chain = w.chain := by
    intro s u hSame _
    rw [← hSame] at hPaused ⊢
    exact Synthetic.after_callBack_paused hBack hPaused
  refine After.mono (after_deposit_lodges (R := (· = w.chain)) rfl hCall) ?_
  rintro _ v ⟨c, rfl, hLodges⟩
  exact hLodges.deal hCaller

/-- A deposit through an adapter is a flow. -/
theorem after_deposit {locked : List Address} {adapter : Address} {n : Amount}
    (hBack : Router.CallsBack user back) (hCaller : w.chain.Acts user caller) :
    After (Strategy.deposit back locked adapter caller n) w fun _ v =>
      Flow user w.chain v.chain := by
  have hCall : ∀ s u, u.chain = w.chain → w.chain.contract? adapter = some (.synthetic s) →
      After (s.callBack back locked adapter) u fun _ v => Flow user w.chain v.chain := by
    intro s u hSame hPool
    rw [← hSame] at hPool ⊢
    exact Synthetic.after_callBack hBack (acts_of_contract hPool)
  refine After.mono (after_deposit_lodges (.refl _) hCall) ?_
  rintro _ v ⟨c, hFlow, hLodges⟩
  exact hFlow.trans (.trade (hLodges.deal (hFlow.acts hCaller)))

end Strategy

end Strategy

/-- The router at `r` lets an adapter take an amount, which deposits it as `R` says, and ends that
again. -/
inductive Chain.Invests (R : Chain → Chain → Prop) (c : Chain) (r adapter : Address) (n : Amount)
    (c' : Chain) : Prop where
  | intro {s : Router.State} {stable : Address} {c₁ c₂ : Chain}
      (hs : c.contract? r = some (.router s)) (hAllow : c.Moves stable (.approve r adapter n) c₁)
      (hDeposit : R c₁ c₂) (hEnd : c₂.Moves stable (.approve r adapter 0) c') :
      Invests R c r adapter n c'

/-- The router at `r` takes shares of a pool out of custody, and has an adapter pay for them. -/
inductive Chain.Redeems (c : Chain) (r : Address) (config : Pool.Config) (shares : Amount)
    (c' : Chain) : Prop where
  | intro {s : Router.State} {q : Custody} {k : Address} {c₁ c₂ c₃ : Chain}
      (hs : c.contract? r = some (.router s)) (hq : c.contract? k = some (.custody q))
      (hGive : c.Moves config.pool (.transfer k r shares) c₁)
      (hAllow : c₁.Moves config.pool (.approve r config.adapter shares) c₂)
      (hCashes : c₂.Cashes config.adapter r shares c₃)
      (hEnd : c₃.Moves config.pool (.approve r config.adapter 0) c') : Redeems c r config shares c'

namespace Router

variable {user : Address} {w : World} {f : Frame} {back : Callback}

theorem lends_of_router {c : Chain} {s : State} {a : Address}
    (h : c.contract? a = some (.router s)) : c.Lends a :=
  .inl (kind?_of_contract? h)

theorem desk_of_router {c : Chain} {s : State} {a : Address}
    (h : c.contract? a = some (.router s)) : c.Desk a :=
  .inl (kind?_of_contract? h)

/-- What a deposit into a pool does follows what the adapter's deposit does. -/
theorem after_depositIntoPool_invests {config : Pool.Config} {n : Amount}
    {R : Chain → Chain → Prop} (hDeposit : ∀ s stable u,
      w.chain.contract? f.self = some (.router s) →
      w.chain.Moves stable (.approve f.self config.adapter n) u.chain →
      After (Strategy.deposit back f.locked config.adapter f.self n) u fun _ v =>
        R u.chain v.chain) :
    After (depositIntoPool back f config n) w fun _ v =>
      w.chain.Invests R f.self config.adapter n v.chain := by
  simp only [depositIntoPool, after_bind, after_view, after_result, View.load_eq_ok, ensure_eq_ok,
    forall_const, known_eq_ok, after_pure]
  intro s hs quote _ _ custody _ _ _ stable _
  refine Token.after_approve.mono fun _ u₁ hAllow => ?_
  refine (hDeposit s stable u₁ hs hAllow).mono fun _ u₂ hInner => ?_
  refine Token.after_approve.mono fun _ u₃ hEnd => ?_
  intros
  exact .intro hs hAllow hInner hEnd

theorem after_depositIntoPool {config : Pool.Config} {n : Amount} (hBack : CallsBack user back) :
    After (depositIntoPool back f config n) w fun _ v => Flow user w.chain v.chain := by
  refine (after_depositIntoPool_invests (R := Flow user) ?_).mono ?_
  · exact fun s stable u hs hAllow =>
      Strategy.after_deposit hBack ((acts_of_contract hs).alike hAllow.alike)
  · rintro _ v ⟨hs, hAllow, hFlow, hEnd⟩
    exact .lent (lends_of_router hs) hAllow hFlow hEnd

theorem after_withdrawShares_redeems {config : Pool.Config} {shares : Amount} :
    After (withdrawShares f config shares) w fun _ v =>
      w.chain.Redeems f.self config shares v.chain := by
  simp only [withdrawShares, after_bind, after_view, after_result, View.load_eq_ok, ensure_eq_ok,
    forall_const, known_eq_ok, after_pure]
  intro s hs quote _ stable _ _ _ custody _
  refine Custody.after_transferShares.mono fun _ u₁ hFirst => ?_
  obtain ⟨⟨q, hq, -⟩, hGive⟩ := hFirst
  refine Token.after_approve.mono fun _ u₂ hAllow => ?_
  refine Strategy.after_withdraw_cashes.mono fun _ u₃ hCashes => ?_
  refine Token.after_approve.mono fun _ u₄ hEnd => ?_
  intros
  exact .intro hs hq hGive hAllow hCashes hEnd

/-- To withdraw a value is to redeem as many shares as are quoted for it. -/
theorem after_withdrawValue_redeems {config : Pool.Config} {value : Amount} :
    After (withdrawValue f config value) w fun _ v => ∃ shares,
      Strategy.previewShares config.adapter value w.chain = .ok shares ∧
        w.chain.Redeems f.self config shares v.chain := by
  simp only [withdrawValue, after_bind, after_view, after_result, ensure_eq_ok, forall_const,
    after_pure]
  intro shares hQuote _
  exact after_withdrawShares_redeems.mono fun _ u hRedeems _ => ⟨shares, hQuote, hRedeems⟩

/-- A withdrawal from a pool of any kind is a trade. -/
theorem trade_of_redeems {c c' : Chain} {r : Address} {config : Pool.Config} {shares : Amount}
    (h : c.Redeems r config shares c') : Trade user c c' := by
  obtain ⟨hs, hq, hGive, hAllow, hCashes, hEnd⟩ := h
  have hLends := (lends_of_router hs).alike hGive.alike
  have hActs : Acts _ user r := (hLends.alike hAllow.alike).acts
  exact .trans (Custody.trade_of_transferShares hq hGive)
    (.lent hLends.lender hAllow (hCashes.deal hActs) hEnd)

theorem after_withdrawShares (user : Address) {config : Pool.Config} {shares : Amount} :
    After (withdrawShares f config shares) w fun _ v => Trade user w.chain v.chain :=
  after_withdrawShares_redeems.mono fun _ _ => trade_of_redeems

theorem after_withdrawValue (user : Address) {config : Pool.Config} {value : Amount} :
    After (withdrawValue f config value) w fun _ v => Trade user w.chain v.chain := by
  refine after_withdrawValue_redeems.mono ?_
  rintro _ v ⟨shares, -, hRedeems⟩
  exact trade_of_redeems hRedeems

theorem after_pullStable {owner : Address} {n : Amount} (hOwner : w.chain.Payer user f.self owner) :
    After (pullStable f owner n) w fun _ v => Trade user w.chain v.chain := by
  simp only [pullStable, after_bind, after_view, after_result, View.load_eq_ok, known_eq_ok]
  intro s hs stable _
  exact Token.after_transferFrom.mono fun _ u hMove =>
    .collected hOwner (by simp [kind?_of_contract? hs]) hMove

/-- What each withdrawal of a fold does is a trade, and so is the whole. -/
theorem after_withdrawals (user : Address) {parts : List Part} {withdraw : Part → Exec Amount}
    (hWithdraw : ∀ part u, After (withdraw part) u fun _ v => Trade user u.chain v.chain) :
    After (parts.foldlM (fun received part => do Amount.add received (← withdraw part)) 0) w
      fun _ v => Trade user w.chain v.chain := by
  refine after_foldlM (I := fun v => Trade user w.chain v.chain) parts ?_ 0 (.refl _)
  intro part _ received u hSoFar
  simp only [after_bind, after_result]
  exact (hWithdraw part u).mono fun _ v hTrade _ _ => .trans hSoFar hTrade

end Router

end Treasury
