import Treasury.Proofs.Legs
import Treasury.Proofs.Pricing

/-! What an exit costs. Shares that are given up are worth what is settled for them at the backing
before the call, but for one case: a solver that names stable amounts while nothing backs the shares
gets them one for one. -/
namespace Treasury

open Exec Chain

/-- A deal leaves the supply of a share token as it is. -/
theorem Deal.supply {May : Chain → Address → Prop} {user t : Address} {c c' : Chain}
    (h : Deal May user c c') (hKind : c.kind? t = some .share) : c'.supply t = c.supply t := by
  have hPool : ∀ {x : Address} {act : Token.Ledger → Result Token.Ledger} {c c' : Chain},
      c.PoolKeeps x act c' → c.kind? t = some .share → c'.supply t = c.supply t := by
    intro x act c c' hKeeps hKind
    have hNe : t ≠ x := by
      rintro rfl
      obtain ⟨k, hk, hx⟩ := hKeeps.kind
      obtain rfl := Option.some.inj (hKind.symm.trans hx)
      simp at hk
    rw [Chain.supply, hKeeps.books_frame hNe, Chain.supply]
  induction h with
  | refl c => rfl
  | trans hFirst _ ihFirst ihThen =>
    rw [ihThen (by rw [hFirst.alike.kind?, hKind]), ihFirst hKind]
  | sent _ hMove | allowed hMove | drawn hMove | collected _ _ hMove => exact hMove.supply t
  | lent _ hAllow _ hEnd ih =>
    rw [hEnd.supply, ih (by rw [hAllow.alike.kind?, hKind]), hAllow.supply]
  | joined _ _ hMove hMint =>
    rw [hPool hMint (by rw [hMove.alike.kind?, hKind]), hMove.supply]
  | left _ _ hTake hMove => rw [hMove.supply, hPool hTake hKind]

/-- What a retired share leaves of the supply. -/
theorem ShareToken.supply_retired {c : Chain} {a initiator owner : Address} {t t' : ShareToken}
    {n : Amount} (hOld : c.contract? a = some (.share t))
    (hRetire : t.retire initiator owner n = .ok t') :
    (c.put a (.share t')).supply a + n = c.supply a := by
  obtain ⟨l, hBurn, rfl⟩ := ShareToken.retire_spec hRetire
  obtain ⟨-, -, hLess⟩ := Token.Ledger.burnFrom_spec hBurn
  rw [Chain.supply, books?_put hOld, if_pos rfl, Chain.supply, books?_of_contract? hOld]
  exact hLess

namespace Router

variable {f : Frame} {w : World} {s : State} {token receiver owner : Address}
  {split : Fee.Split} {kept shares : Amount} {legs : Nat}

/-- Fees that are written down change no supply. -/
theorem supply_collected {c : Chain} {a : Address} {s s' : State}
    (hs : c.contract? a = some (Storage.wrap s)) (t : Address) :
    (c.put a (Storage.wrap s')).supply t = c.supply t := by
  have hSame : (c.put a (Storage.wrap s')).books? t = c.books? t := books?_put_same hs (by rfl) t
  rw [Chain.supply, Chain.supply, hSame]

/-- The settlement of a solver's withdrawal burns the shares that it is told to. -/
theorem after_settleWithdrawal_burns :
    After (settleWithdrawal f s token receiver owner split kept shares legs) w fun _ v =>
      shares ≠ 0 ∧ v.chain.supply token + shares = w.chain.supply token := by
  simp only [settleWithdrawal, after_bind, after_result, known_eq_ok, after_update, after_emit]
  intro stable _
  refine Token.after_transfer.mono fun _ u hMove => ?_
  refine ShareToken.after_burnFor.mono ?_
  rintro _ v ⟨t, t', hOld, -, hShares, hRetire, hv⟩ s' s'' hs' hCollect
  refine ⟨hShares, ?_⟩
  rw [supply_collected hs', hv, ShareToken.supply_retired hOld hRetire, hMove.supply]

/-- A user's withdrawal splits its gross amount, and leaves the shares to the share token. -/
theorem after_handleWithdraw_splits {initiator t : Address} {gross expected : Amount}
    (hs : w.chain.contract? f.self = some (.router s)) (hKind : w.chain.kind? t = some .share) :
    After (handleWithdraw f initiator receiver owner gross expected) w fun split v =>
      Fee.split gross s.withdrawalFee = .ok split ∧ v.chain.supply t = w.chain.supply t := by
  simp only [handleWithdraw, after_guarded, after_bind, after_view, after_result, ensure_eq_ok,
    State.requireRunning, requireShareToken, forall_const]
  intro s' hs' _ _ _ _ split hSplit _ pools _ i _
  obtain rfl : s = s' := storage_unique hs hs'
  split
  · simp only [refuse, reduceCtorEq, after_result, false_implies, implies_true]
  · simp only [after_bind, after_result, known_eq_ok, after_update, after_emit, after_pure]
    refine (after_withdrawValue f.caller).mono fun received u hTrade stable _ => ?_
    refine Token.after_transfer.mono fun _ v hMove kept _ s' s'' hs' hCollect => ?_
    refine ⟨hSplit, ?_⟩
    rw [supply_collected hs', hMove.supply, hTrade.supply hKind]

end Router

/-- Shares are burned for a gross amount. They are worth it as long as there is a backing. Without
one, their number is the amount. -/
structure Wiring.Burns (w : Wiring) (gross burned backing : Nat) (c c' : Chain) : Prop where
  assets : ShareToken.totalAssets w.share c = .ok backing
  some : burned ≠ 0
  supply : c'.supply w.share + burned = c.supply w.share
  worth : backing ≠ 0 → gross * c.supply w.share ≤ burned * backing
  unbacked : backing = 0 → burned = gross

namespace Wiring

variable {w : Wiring} {c c' : Chain} {t : ShareToken} {gross burned backing : Nat}

theorem Burns.supply_ne_zero (h : w.Burns gross burned backing c c') :
    c.supply w.share ≠ 0 := by
  intro hNone
  rw [← h.supply] at hNone
  exact h.some (Nat.add_eq_zero_iff.1 hNone).2

/-- An exit is fair just when there is a backing. -/
theorem Burns.fair_iff (h : w.Burns gross burned backing c c') :
    gross * c.supply w.share ≤ burned * backing ↔ backing ≠ 0 := by
  constructor
  · rintro hLess rfl
    rw [Nat.mul_zero, Nat.le_zero, Nat.mul_eq_zero, ← h.unbacked rfl] at hLess
    exact hLess.elim h.some h.supply_ne_zero
  · exact h.worth

/-- Shares that are taken for an amount are burned for it. -/
theorem burns_of_sharesToTake (ht : c.contract? w.share = Option.some (.share t))
    (hQuote : t.sharesToTake gross c = .ok burned) (hSome : burned ≠ 0)
    (hSupply : c'.supply w.share + burned = c.supply w.share) :
    ∃ backing, w.Burns gross burned backing c c' := by
  have hLedger : c.supply w.share = t.ledger.supply := by
    rw [Chain.supply, books?_of_contract? ht]
    rfl
  have hSupplied : t.ledger.supply ≠ 0 := by
    rw [← hLedger, ← hSupply]
    exact fun hNone => hSome (Nat.add_eq_zero_iff.1 hNone).2
  obtain ⟨backing, hBacking, hWorth, hUnbacked⟩ := ShareToken.le_sharesToTake hQuote hSupplied
  refine ⟨backing, (ShareToken.totalAssets_eq_ok ht).2 hBacking, hSome, hSupply, ?_, hUnbacked⟩
  rw [hLedger]
  exact hWorth

end Wiring

/-- What legs that name pool shares are quoted together. -/
inductive Quotes (registry : Pool.Registry) (c : Chain) : List Pool.Leg → Nat → Prop where
  | nil : Quotes registry c [] 0
  | cons {leg : Pool.Leg} {rest : List Pool.Leg} {config : Pool.Config} {n : Amount} {total : Nat}
      (hConfig : registry.get? leg.pool = some config)
      (hQuote : Strategy.previewWithdraw config.adapter leg.amount c = .ok n)
      (hRest : Quotes registry c rest total) : Quotes registry c (leg :: rest) (n + total)

namespace Router

variable {wiring : Wiring} {f : Frame} {w : World} {s : State} {q : Custody}
  {receiver owner : Address} {legs : List Pool.Leg} {maxShares : Amount}

theorem quotes_of_parts {registry : Pool.Registry} {c : Chain} {parts : List Part}
    {start gross : Amount}
    (hKnown : ∀ part ∈ parts, registry.get? part.config.pool = some part.config)
    (h : (parts.foldlM (fun gross part => do
      Amount.add gross (← Strategy.previewWithdraw part.config.adapter part.amount)) start :
        View Amount) c = .ok gross) :
    ∃ total, start + total = gross ∧
      Quotes registry c (parts.map fun part => ⟨part.config.pool, part.amount⟩) total := by
  induction parts generalizing start with
  | nil =>
    cases h
    exact ⟨0, rfl, .nil⟩
  | cons part rest ih =>
    simp only [List.foldlM_cons, View.bind_eq_ok, View.lift_apply, Amount.add_eq_ok] at h
    obtain ⟨_, ⟨n, hQuote, -, rfl⟩, hRest⟩ := h
    obtain ⟨hPart, hOthers⟩ := List.forall_mem_cons.1 hKnown
    obtain ⟨total, hTotal, hQuotes⟩ := ih hOthers hRest
    exact ⟨n + total, by rw [← hTotal, Nat.add_assoc], .cons hPart hQuote hQuotes⟩

theorem after_solverWithdrawByAssets_burns (hComplete : wiring.Complete w.chain)
    (hs : w.chain.contract? f.self = some (.router s)) (hAgree : Agree w.chain s q)
    (hSelf : f.self = wiring.router) :
    After (solverWithdrawByAssets f legs maxShares receiver owner) w fun net v =>
      ∃ burned backing split, wiring.Burns (Pool.Leg.total legs) burned backing w.chain v.chain ∧
        Fee.split (Pool.Leg.total legs) s.withdrawalFee = .ok split ∧ net = split.net := by
  obtain ⟨-, -, hShare⟩ := hComplete.links (hSelf ▸ hs)
  obtain ⟨t, ht, -⟩ := hComplete.share
  have hKind : w.chain.kind? wiring.share = some .share := kind?_of_contract? ht
  simp only [solverWithdrawByAssets, after_guarded, State.requireRunning, Roles.requireRole,
    after_bind, after_view, after_result, ensure_eq_ok, forall_const, known_eq_ok, after_pure]
  intro s' hs' _ _ _ parts hParts gross hGross token hToken shares hQuote _
  obtain rfl : s = s' := storage_unique hs hs'
  obtain rfl : wiring.share = token := Option.some.inj (hShare.symm.trans hToken)
  obtain ⟨hLegs, -⟩ := resolveAll_spec hAgree.registry hParts
  have hAmounts : parts.map Part.amount = legs.map Pool.Leg.amount := by
    rw [← hLegs, List.map_map]
    rfl
  rw [hAmounts, Pool.Leg.sum_eq_ok] at hGross
  obtain ⟨-, rfl⟩ := hGross
  refine After.mono (after_withdrawals f.caller fun part u => after_withdrawValue f.caller) ?_
  intro received u hTrade split hSplit kept _
  refine after_settleWithdrawal_burns.mono ?_
  rintro _ v ⟨hSome, hSupply⟩
  rw [hTrade.supply hKind] at hSupply
  obtain ⟨backing, hBurns⟩ := Wiring.burns_of_sharesToTake ht
    ((ShareToken.previewWithdraw_eq_ok ht).1 hQuote) hSome hSupply
  exact ⟨shares, backing, split, hBurns, hSplit, rfl⟩

theorem after_solverWithdrawByShares_burns (hComplete : wiring.Complete w.chain)
    (hs : w.chain.contract? f.self = some (.router s)) (hAgree : Agree w.chain s q)
    (hSelf : f.self = wiring.router) :
    After (solverWithdrawByShares f legs maxShares receiver owner) w fun paid v =>
      ∃ gross burned backing split, backing ≠ 0 ∧
        wiring.Burns gross burned backing w.chain v.chain ∧
        Quotes s.registry w.chain legs gross ∧
        Fee.split gross s.withdrawalFee = .ok split ∧ paid.net = split.net := by
  obtain ⟨-, -, hShare⟩ := hComplete.links (hSelf ▸ hs)
  obtain ⟨t, ht, -⟩ := hComplete.share
  have hKind : w.chain.kind? wiring.share = some .share := kind?_of_contract? ht
  simp only [solverWithdrawByShares, after_guarded, State.requireRunning, Roles.requireRole,
    after_bind, after_view, after_result, after_foldlM_view, ensure_eq_ok, forall_const,
    known_eq_ok, after_pure]
  intro s' hs' _ _ _ parts hParts gross hGross hPositive split hSplit token hToken shares hQuote _
    netByShares hNet hReconciles
  obtain rfl : s = s' := storage_unique hs hs'
  obtain rfl : wiring.share = token := Option.some.inj (hShare.symm.trans hToken)
  obtain ⟨hLegs, hKnown⟩ := resolveAll_spec hAgree.registry hParts
  obtain ⟨total, hTotal, hQuotes⟩ := quotes_of_parts (fun part hp => (hKnown part hp).1) hGross
  rw [Nat.zero_add] at hTotal
  subst hTotal
  rw [hLegs] at hQuotes
  refine After.mono (after_withdrawals f.caller fun part u => after_withdrawShares f.caller) ?_
  intro received u hTrade surplus _ fee _
  refine after_settleWithdrawal_burns.mono ?_
  rintro _ v ⟨hSome, hSupply⟩
  rw [hTrade.supply hKind] at hSupply
  obtain ⟨backing, hBurns⟩ := Wiring.burns_of_sharesToTake ht
    ((ShareToken.previewWithdraw_eq_ok ht).1 hQuote) hSome hSupply
  refine ⟨_, shares, backing, split, ?_, hBurns, hQuotes, hSplit, rfl⟩
  -- Shares that nothing backs are worth nothing, and that does not reconcile with any net amount.
  rintro rfl
  have hSupplied : t.ledger.supply ≠ 0 := by
    have hSupplied := hBurns.supply_ne_zero
    rwa [Chain.supply, books?_of_contract? ht] at hSupplied
  have hWorthless := ShareToken.netWorth_of_unbacked ((ShareToken.previewRedeem_eq_ok ht).1 hNet)
    hSupplied ((ShareToken.totalAssets_eq_ok ht).1 hBurns.assets)
  subst hWorthless
  simp only [Fee.reconciles, Bool.and_eq_true, decide_eq_true_eq] at hReconciles
  exact Fee.net_ne_zero hSplit hPositive hAgree.fee (Nat.le_zero.1 hReconciles.1)

end Router

theorem ShareToken.after_redeem_burns {wiring : Wiring} {w : World} {s : Router.State}
    {caller receiver owner : Address} {shares : Amount} (hComplete : wiring.Complete w.chain)
    (hs : w.chain.contract? wiring.router = some (.router s)) :
    After (ShareToken.redeem wiring.share caller shares receiver owner) w fun net v =>
      ∃ gross backing split, backing ≠ 0 ∧
        ShareToken.convertToAssets wiring.share shares w.chain = .ok gross ∧
        wiring.Burns gross shares backing w.chain v.chain ∧
        Fee.split gross s.withdrawalFee = .ok split ∧ net = split.net := by
  obtain ⟨token, hToken, hKnown⟩ := hComplete.share
  simp only [ShareToken.redeem, after_entering, after_bind, after_view, after_result,
    View.callee_eq_ok, ensure_eq_ok, forall_const, known_eq_ok, after_update, after_pure]
  intro t hShare hAmount gross hGross hPositive t' t'' hOld hRetire router hRouter expected _
  obtain rfl : token = t := storage_unique hToken hShare
  obtain rfl : token = t' := storage_unique hToken hOld
  obtain rfl : wiring.router = router := Option.some.inj (hKnown.symm.trans hRouter)
  have hBurned := ShareToken.supply_retired hToken hRetire
  have hSupplied : token.ledger.supply ≠ 0 := by
    rw [Chain.supply, Chain.supply, books?_of_contract? hToken] at hBurned
    intro hNone
    exact hAmount (Nat.add_eq_zero_iff.1 (hBurned.trans hNone)).2
  obtain ⟨backing, hBacking, hWorth⟩ := ShareToken.worth_le hGross hSupplied
  have hBacked : backing ≠ 0 := by
    rintro rfl
    rw [Nat.mul_zero, Nat.le_zero, Nat.mul_eq_zero] at hWorth
    exact hWorth.elim hPositive hSupplied
  have hStays : (w.chain.put wiring.share (.share t'')).contract? wiring.router =
      some (.router s) := by
    refine contract?_put_other ?_ hs
    intro hPlace
    rw [hPlace, hs] at hToken
    cases hToken
  have hKind : (w.chain.put wiring.share (.share t'')).kind? wiring.share = some .share :=
    kind?_of_contract? (contract?_put_self _ hToken)
  refine After.mono (Router.after_handleWithdraw_splits (by exact hStays) (by exact hKind)) ?_
  rintro split v ⟨hSplit, hSupply⟩
  refine ⟨gross, backing, split, hBacked, (ShareToken.convertToAssets_eq_ok hToken).2 hGross,
    ⟨(ShareToken.totalAssets_eq_ok hToken).2 hBacking, hAmount, ?_, fun _ => ?_,
      fun hNone => absurd hNone hBacked⟩, hSplit, rfl⟩
  · rw [hSupply]
    exact hBurned
  · rw [Chain.supply, books?_of_contract? hToken]
    exact hWorth

namespace Wiring

/-- A call to a target that gives up shares. -/
inductive Exits (w : Wiring) (target : Address) : Command → Prop where
  | redeem (hTarget : target = w.share) (shares : Amount) (receiver owner : Address) :
      Exits w target (.share (.redeem shares receiver owner))
  | byAssets (hTarget : target = w.router) (legs : List Pool.Leg) (maxShares : Amount)
      (receiver owner : Address) :
      Exits w target (.router (.solverWithdrawByAssets legs maxShares receiver owner))
  | byShares (hTarget : target = w.router) (legs : List Pool.Leg) (maxShares : Amount)
      (receiver owner : Address) :
      Exits w target (.router (.solverWithdrawByShares legs maxShares receiver owner))

/-- What an exit settles before the fee is split off, with its answer. It is what the shares are
worth, what the legs name, or what they are quoted. -/
inductive Settles (w : Wiring) (c : Chain) : Command → Answer → Nat → Prop where
  | redeem {shares gross : Amount} {receiver owner : Address} {split : Fee.Split}
      (hWorth : ShareToken.convertToAssets w.share shares c = .ok gross)
      (hSplit : Fee.split gross (c.routing w.router).withdrawalFee = .ok split) :
      Settles w c (.share (.redeem shares receiver owner)) (.amount split.net) gross
  | byAssets {legs : List Pool.Leg} {maxShares : Amount} {receiver owner : Address}
      {split : Fee.Split}
      (hSplit : Fee.split (Pool.Leg.total legs) (c.routing w.router).withdrawalFee = .ok split) :
      Settles w c (.router (.solverWithdrawByAssets legs maxShares receiver owner))
        (.amount split.net) (Pool.Leg.total legs)
  | byShares {legs : List Pool.Leg} {maxShares gross fee : Amount} {receiver owner : Address}
      {split : Fee.Split} (hQuotes : Quotes (c.routing w.router).registry c legs gross)
      (hSplit : Fee.split gross (c.routing w.router).withdrawalFee = .ok split) :
      Settles w c (.router (.solverWithdrawByShares legs maxShares receiver owner))
        (.amounts split.net fee) gross

end Wiring

/-- Whoever exits gives up shares that are worth what is settled for them, just when there is a
backing. Without one, only a solver that names stable amounts can exit, at one share for each
unit. -/
theorem WiredRun.exits_are_fair_iff_backed {w : Wiring} {c : Chain} (hRun : WiredRun w c)
    (hComplete : w.Complete c) {caller : Digest} {target : Address} {command : Command}
    {out : Outcome} (hCall : c.submit (.account caller) target command = .ok out)
    (hExits : w.Exits target command) :
    ∃ gross burned backing, w.Settles c command out.answer gross ∧
      ShareToken.totalAssets w.share c = .ok backing ∧
      out.chain.supply w.share + burned = c.supply w.share ∧
      (gross * c.supply w.share ≤ burned * backing ↔ backing ≠ 0) ∧
      (backing = 0 → burned = gross ∧ ∃ legs maxShares receiver owner,
        command = .router (.solverWithdrawByAssets legs maxShares receiver owner)) := by
  obtain ⟨s, hs, -⟩ := hComplete.router
  have hAgree := hRun.agrees (hRun.router_place hComplete)
  rw [Wiring.Agrees, routing_of hs] at hAgree
  have hAfter : After (command.run c.callback target (.account caller)) { chain := c }
      fun answer v => ∃ gross burned backing, w.Settles c command answer gross ∧
        w.Burns gross burned backing c v.chain ∧
        (backing = 0 → ∃ legs maxShares receiver owner,
          command = .router (.solverWithdrawByAssets legs maxShares receiver owner)) := by
    cases hExits with
    | redeem hTarget shares receiver owner =>
      subst hTarget
      refine after_map.2 ((ShareToken.after_redeem_burns hComplete hs).mono ?_)
      rintro _ v ⟨gross, backing, split, hBacked, hWorth, hBurns, hSplit, rfl⟩
      refine ⟨gross, shares, backing, .redeem hWorth ?_, hBurns, fun hNone => absurd hNone hBacked⟩
      rw [routing_of hs]
      exact hSplit
    | byAssets hTarget legs maxShares receiver owner =>
      subst hTarget
      refine after_map.2 ((Router.after_solverWithdrawByAssets_burns hComplete hs hAgree
        (by rfl)).mono ?_)
      rintro _ v ⟨burned, backing, split, hBurns, hSplit, rfl⟩
      refine ⟨_, burned, backing, .byAssets ?_, hBurns, fun _ => ⟨_, _, _, _, rfl⟩⟩
      rw [routing_of hs]
      exact hSplit
    | byShares hTarget legs maxShares receiver owner =>
      subst hTarget
      refine after_bind.2 ((Router.after_solverWithdrawByShares_burns hComplete hs hAgree
        (by rfl)).mono ?_)
      rintro paid v ⟨gross, burned, backing, split, hBacked, hBurns, hQuotes, hSplit, hNet⟩
      refine after_pure.2 ⟨gross, burned, backing, ?_, hBurns, fun hNone => absurd hNone hBacked⟩
      rw [hNet]
      refine .byShares ?_ ?_ <;> rw [routing_of hs]
      · exact hQuotes
      · exact hSplit
  obtain ⟨gross, burned, backing, hSettles, hBurns, hUnbacked⟩ := of_submit hAfter hCall
  exact ⟨gross, burned, backing, hSettles, hBurns.assets, hBurns.supply, hBurns.fair_iff,
    fun hNone => ⟨hBurns.unbacked hNone, hUnbacked hNone⟩⟩

/-- At a rate of 1.5, 100 were deposited and are valued at 99. The redemption of 41 shares is
fair. -/
theorem WiredRun.exits_are_fair_iff_backed_redeemed : ∃ c out gross burned,
    WiredRun Standard.places c ∧ Standard.places.Complete c ∧
      c.submit (.account 1) Standard.share (.share (.redeem 41 (.account 2) (.account 1))) =
        .ok out ∧
      Standard.places.Settles c (.share (.redeem 41 (.account 2) (.account 1))) out.answer gross ∧
      ShareToken.totalAssets Standard.share c = .ok 99 ∧
      out.chain.supply Standard.share + burned = c.supply Standard.share ∧
      gross * c.supply Standard.share ≤ burned * 99 := by
  have hEnd : (Standard.places.follow {} (Standard.pooled 0 1 { admin := .account 0 }
      1_500_000_000_000_000_000 100 ++
      [.call 1 Standard.share (.share (.deposit 100 (.account 1)))])).any (fun c =>
      Standard.places.completes c && (c.submit (.account 1) Standard.share
        (.share (.redeem 41 (.account 2) (.account 1)))).toOption.any fun _ =>
          (ShareToken.totalAssets Standard.share c).toOption == some 99) = true := by
    decide +kernel
  obtain ⟨c, out, hRun, hComplete, hCall, hHolds⟩ := Wiring.exists_submit hEnd
  rw [beq_iff_eq] at hHolds
  obtain ⟨gross, burned, backing, hSettles, hAssets, hSupply, hFair, -⟩ :=
    exits_are_fair_iff_backed hRun hComplete hCall (.redeem (by rfl) 41 (.account 2) (.account 1))
  have hBacking := Result.of_toOption hHolds
  obtain rfl : backing = 99 := Except.ok.inj (hAssets.symm.trans hBacking)
  exact ⟨c, out, gross, burned, hRun, hComplete, hCall, hSettles, hBacking, hSupply,
    hFair.2 (by decide)⟩

/-- At a rate of 1, 100 were deposited and are written off. A solver takes 50 out for 50 of the 100
shares, which are worth nothing. -/
theorem WiredRun.exit_without_backing : ∃ c out,
    WiredRun Standard.places c ∧ Standard.places.Complete c ∧
      c.submit (.account 1) Standard.router (.router (.solverWithdrawByAssets
        [⟨Standard.pool, 50⟩] 50 (.account 1) (.account 1))) = .ok out ∧
      Standard.places.Exits Standard.router (.router (.solverWithdrawByAssets
        [⟨Standard.pool, 50⟩] 50 (.account 1) (.account 1))) ∧
      ShareToken.totalAssets Standard.share c = .ok 0 ∧
      c.supply Standard.share = 100 ∧ out.chain.supply Standard.share + 50 = 100 ∧
      ¬ Pool.Leg.total [⟨Standard.pool, 50⟩] * c.supply Standard.share ≤ 50 * 0 := by
  have hEnd : (Standard.places.follow {} (Standard.pooled 0 1 { admin := .account 0 } rateScale
      100 ++
      [.call 1 Standard.share (.share (.deposit 100 (.account 1))),
        .call 0 Standard.router (.router (.recordShortfall 100)),
        .call 0 Standard.router (.router (.grantRole Roles.solver (.account 1)))])).any (fun c =>
      Standard.places.completes c && (c.submit (.account 1) Standard.router
        (.router (.solverWithdrawByAssets [⟨Standard.pool, 50⟩] 50 (.account 1)
          (.account 1)))).toOption.any fun out =>
            (ShareToken.totalAssets Standard.share c).toOption == some 0 &&
              (c.supply Standard.share == 100 &&
                out.chain.supply Standard.share + 50 == 100)) = true := by decide +kernel
  obtain ⟨c, out, hRun, hComplete, hCall, hHolds⟩ := Wiring.exists_submit hEnd
  simp only [Bool.and_eq_true, beq_iff_eq] at hHolds
  obtain ⟨hAssets, hBefore, hAfter⟩ := hHolds
  refine ⟨c, out, hRun, hComplete, hCall, .byAssets (by rfl) _ 50 (.account 1) (.account 1),
    Result.of_toOption hAssets, hBefore, hAfter, ?_⟩
  rw [hBefore]
  decide

end Treasury
