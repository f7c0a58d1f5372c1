import Treasury.Proofs.OrderlyCalls
import Treasury.Proofs.ShareBalances

/-! Allowances and pool shares at any moment. Only contracts at work have others take tokens of
theirs, and only until they are done. The router of a treasury never ends a call with other pool
shares than it began it with, and a wrapped-vault adapter keeps nothing of what others pass through
it, unless it was set up to keep the shares itself. -/
namespace Treasury

open Exec Chain

/-- The moments of a call of a user, with the contracts that have been at work. Value has flowed,
and contracts at work may have let others take tokens of theirs and not have ended that yet. -/
inductive Chain.Amid (user : Address) (c : Chain) : List Address → Chain → Prop where
  | begun : Amid user c [] c
  | called {busy : List Address} {c' : Chain} (a : Address) (h : Amid user c busy c') :
      Amid user c (a :: busy) c'
  | flowed {busy : List Address} {c₁ c' : Chain} (h : Amid user c busy c₁)
      (hFlow : Flow user c₁ c') : Amid user c busy c'
  | lent {busy : List Address} {c₁ c' : Chain} {t lender spender : Address} {n : Amount}
      (h : Amid user c busy c₁) (hBusy : lender ∈ busy)
      (hAllow : c₁.Moves t (.approve lender spender n) c') : Amid user c busy c'

namespace Chain.Amid

variable {user a : Address} {busy : List Address} {c c' : Chain}

theorem kind? (h : c.Amid user busy c') (a : Address) : c'.kind? a = c.kind? a := by
  induction h with
  | begun => rfl
  | called _ _ ih => exact ih
  | flowed _ hFlow ih => exact (hFlow.kind? a).trans ih
  | lent _ _ hAllow ih => exact (hAllow.alike.kind? a).trans ih

/-- Contracts that are not at work let nobody take tokens of theirs. -/
theorem allowance_eq_zero (h : c.Amid user busy c') (hSealed : c.Sealed)
    (hStands : c.kind? a ≠ none) (hUser : user ≠ a) (hIdle : a ∉ busy) {t spender : Address}
    (hKind : c.kind? t ≠ some .ledger) : c'.allowance t a spender = 0 := by
  induction h with
  | begun => exact hSealed _ _ _ hStands hKind
  | called _ _ ih => exact ih fun hIn => hIdle (List.mem_cons_of_mem _ hIn)
  | @flowed _ c₁ c' _ hFlow ih =>
    have hLess : c'.allowance t a spender ≤ c₁.allowance t a spender :=
      hFlow.allowance_le hUser.symm
    rw [ih hIdle] at hLess
    exact Nat.le_zero.1 hLess
  | @lent _ c₁ c' _ lender _ _ _ hBusy hAllow ih =>
    have hLess : c'.allowance t a spender ≤ c₁.allowance t a spender := by
      apply hAllow.allowance_le
      rintro _ _ _ ⟨⟩ rfl
      exact hIdle hBusy
    rw [ih hIdle] at hLess
    exact Nat.le_zero.1 hLess

/-- While the router of a treasury is not at work, the treasury is ready for it. -/
theorem ready {w : Wiring} (h : c.Amid user busy c') (hReady : w.Ready c) (hUser : user ≠ w.router)
    (hIdle : w.router ∉ busy) : w.Ready c' := by
  induction h with
  | begun => exact hReady
  | called _ _ ih => exact ih fun hIn => hIdle (List.mem_cons_of_mem _ hIn)
  | flowed _ hFlow ih => exact (ih hIdle).flow hUser hFlow
  | @lent _ _ _ _ lender _ _ _ hBusy hAllow ih =>
    have hOther : lender ≠ w.router := by
      rintro rfl
      exact hIdle hBusy
    exact (ih hIdle).flow hOther (.trade (.allowed hAllow))

end Chain.Amid

/-- No constructor gives or takes anything. -/
theorem Construction.after_run_balance {u : World} {self caller : Address}
    (construction : Construction) :
    After (construction.run self caller) u fun _ v =>
      ∀ t a, v.chain.balance t a = u.chain.balance t a := by
  refine (Construction.after_run construction).mono ?_
  rintro _ v ⟨old, new, hOld, hBuilds, hv⟩ t a
  obtain ⟨hSame, hKeeps⟩ := hBuilds.keeps
  rw [hv, balance, books?_put hOld, balance]
  split
  · next ht =>
    subst ht
    rw [books?_of_contract? hOld]
    cases hl : old.books? with
    | some l =>
      obtain ⟨l', hl', hBalances, -⟩ := hKeeps l hl
      rw [hl', Option.getD_some, Option.getD_some, Token.Ledger.balanceOf, hBalances,
        Token.Ledger.balanceOf]
    | none => cases old <;> cases hl <;> cases new <;> cases hSame <;> rfl
  · rfl

namespace Strategy

variable {u : World} {x caller : Address} {s : Wrapped}

/-- What a wrapped-vault adapter is asked, other than to take a deposit, leaves it with what it has.
-/
theorem Command.after_run_wrapped {back : Router.Callback} {command : Strategy.Command}
    (hs : u.chain.contract? x = some (.wrapped s)) (hCaller : caller ≠ x)
    (hOther : ∀ n, command ≠ .deposit n) :
    After (command.run back x caller) u fun _ v =>
      ∀ t, v.chain.balance t x = u.chain.balance t x := by
  cases command with
  | deposit n => exact absurd rfl (hOther n)
  | withdraw shares =>
    simp only [Command.run, Strategy.withdraw, after_map, after_entering, after_bind, after_view,
      View.contract_eq_ok, hs, Option.some.injEq]
    rintro _ rfl
    exact Wrapped.after_withdraw_passes hs hCaller
  | setPaused paused =>
    simp only [Command.run, Strategy.setPaused, after_entering, after_bind, after_view,
      View.contract_eq_ok, hs, Option.some.injEq, after_pure]
    rintro _ rfl
    simp only [after_bind, after_result, after_put]
    intro s' _ t
    rw [balance, books?_put_same hs (by rfl), balance]
  | fund | setRate | turn =>
    simp [Command.run, FixedRate.fund, Strategy.setRate, amend, after_entering, after_bind,
      View.callee_eq_ok, Storage.wrap, hs]

/-- A deposit through a wrapped-vault adapter stays with it only if it is to get the shares. -/
theorem after_deposit_wrapped {back : Router.Callback} {locked : List Address} {n : Amount}
    (hs : u.chain.contract? x = some (.wrapped s)) (hCaller : caller ≠ x)
    (hNone : ∀ t spender, u.chain.kind? t ≠ some .ledger → u.chain.allowance t x spender = 0) :
    After (Strategy.deposit back locked x caller n) u fun minted v => ∀ t,
      v.chain.balance t x = u.chain.balance t x +
        if t = minted.pool ∧ s.custody = some x then minted.shares else 0 := by
  simp only [Strategy.deposit, after_entering, after_bind, after_view, View.contract_eq_ok, hs,
    Option.some.injEq]
  rintro _ rfl
  exact Wrapped.after_deposit_passes hs hCaller hNone

end Strategy

section Moments

variable {w : Wiring} {c c' : Chain} {d : Digest} {busy : List Address}

/-- At any moment of a call in a wired run, and between calls, contracts that are not at work let
nobody take tokens of theirs. Whatever the router is asked at such a moment, it owns the same pool
shares afterwards; and whatever others ask of a wrapped-vault adapter that is not at work, it owns
what it did of all tokens, except that an adapter that was set up as its own custodian gets the
shares of deposits. -/
theorem WiredRun.no_standing_approvals (hRun : WiredRun w c) (hComplete : w.Complete c)
    (hAmid : c.Amid (.account d) busy c') :
    (∀ a ∉ busy, c.kind? a ∈ [some .router, some .custody, some .wrapped] →
      ∀ t spender, c.kind? t ≠ some .ledger → c'.allowance t a spender = 0) ∧
    (∀ u caller locked depth command, u.chain = c' → caller ≠ w.router →
      (w.router ∈ busy → w.router ∈ locked) →
        After (Router.run (Router.nested depth) ⟨w.router, caller, locked⟩ command) u fun _ v =>
          w.KeepsShares c' v.chain) ∧
    (∀ x s u caller, c'.contract? x = some (.wrapped s) → x ∉ busy → u.chain = c' → caller ≠ x →
      (∀ back locked n, After (Strategy.deposit back locked x caller n) u fun minted v => ∀ t,
        v.chain.balance t x = c'.balance t x +
          if t = minted.pool ∧ s.custody = some x then minted.shares else 0) ∧
      ∀ back command, (∀ n, command ≠ Strategy.Command.deposit n) →
        After (command.run back x caller) u fun _ v =>
          ∀ t, v.chain.balance t x = c'.balance t x) ∧
    ∀ a u caller construction, u.chain = c' →
      After (Construction.run a caller construction) u fun _ v =>
        ∀ t o, v.chain.balance t o = c'.balance t o := by
  have hPlace := hRun.router_place hComplete
  have hUser : ∀ a, c.kind? a ≠ none → Address.account d ≠ a := fun a =>
    hRun.run.ne_of_stands ⟨d, rfl⟩
  refine ⟨fun a hIdle hKind t spender ht => ?_, ?_, ?_, ?_⟩
  · refine hAmid.allowance_eq_zero hRun.run.sealed ?_ (hUser a ?_) hIdle ht <;>
      · intro hNone
        simp [hNone] at hKind
  · rintro u caller locked depth command rfl hCaller hLocked
    by_cases hBusy : w.router ∈ busy
    · exact (Router.after_run_locked (hLocked hBusy) command u).mono fun _ _ => False.elim
    · obtain ⟨p, hp⟩ := hPlace
      have hReady := hAmid.ready (hRun.ready ⟨p, hp⟩) (by simp [hp]) hBusy
      exact Router.after_run_keepsShares hReady hCaller depth command
  · rintro x s u caller hs hIdle rfl hCaller
    have hKind := hAmid.kind?
    have hStands : c.kind? x ≠ none := by
      rw [← hKind, kind?_of_contract? hs]
      simp
    refine ⟨fun back locked n => ?_, fun back command hOther => ?_⟩
    · refine Strategy.after_deposit_wrapped hs hCaller fun t spender ht => ?_
      exact hAmid.allowance_eq_zero hRun.run.sealed hStands (hUser x hStands) hIdle (hKind t ▸ ht)
    · exact Strategy.Command.after_run_wrapped hs hCaller hOther
  · rintro a u caller construction rfl
    exact Construction.after_run_balance construction

/-- The address of the adapter in a treasury with one vault. -/
def Standard.adapter : Address := .ofNumber 6

/-- Deploy a standard treasury with one pool, a yield vault whose adapter has this custodian. A
solver gets 100 stable, of which it lets the router take 60 and the adapter 40. -/
def Standard.vaulted (custodian : Address) : List Action :=
  opening 0 { admin := .account 0 } ++
    [.deploy 0 (.yieldVault (.account 0) stable),
      .deployBlank .wrapped,
      .call 0 adapter (.construct (.wrapped (.account 0) stable custodian pool)),
      .call 0 router (.router (.registerAdapter pool adapter)),
      .call 0 router (.router (.addPool pool weightScale)),
      .call 0 router (.router (.grantRole Roles.solver (.account 1))),
      .call 0 stable (.stable (.mint (.account 1) 100)),
      .call 1 stable (.token (.approve router 60)),
      .call 1 stable (.token (.approve adapter 40))]

/-- The solver deposits 60 through the router and 40 through the adapter itself. Neither keeps
shares of the vault, nor the adapter stable. -/
theorem WiredRun.no_standing_approvals_vaulted : ∃ c s joined passed,
    WiredRun Standard.places c ∧ Standard.places.Complete c ∧
      c.contract? Standard.adapter = some (.wrapped s) ∧ s.custody = some Standard.custody ∧
      c.allowance Standard.stable Standard.router Standard.adapter = 0 ∧
      c.submit (.account 1) Standard.router (.router
        (.solverDepositByAssets [⟨Standard.pool, 60⟩] 0 (.account 1))) = .ok joined ∧
      joined.chain.balance Standard.pool Standard.router =
        c.balance Standard.pool Standard.router ∧
      c.submit (.account 1) Standard.adapter (.strategy (.deposit 40)) = .ok passed ∧
      ∀ t, passed.chain.balance t Standard.adapter = c.balance t Standard.adapter := by
  have hEnd : (Standard.places.follow {} (Standard.vaulted Standard.custody)).any (fun c =>
      Standard.places.completes c &&
        (((c.contract? Standard.adapter).bind (Storage.pick (σ := Strategy.Wrapped))).any
            (fun s => s.custody == some Standard.custody) &&
          (c.submit (.account 1) Standard.router (.router
            (.solverDepositByAssets [⟨Standard.pool, 60⟩] 0 (.account 1)))).toOption.isSome &&
          (c.submit (.account 1) Standard.adapter
            (.strategy (.deposit 40))).toOption.isSome)) = true := by
    decide +kernel
  obtain ⟨c, hRun, hComplete, hHolds⟩ := Wiring.exists_reached hEnd
  simp only [Bool.and_eq_true] at hHolds
  obtain ⟨⟨hPool, hJoined⟩, hPassed⟩ := hHolds
  obtain ⟨s, hBind, hCustody⟩ := (Option.any_eq_true _ _).1 hPool
  obtain ⟨y, hy, hPick⟩ := Option.bind_eq_some_iff.1 hBind
  obtain rfl := (Storage.pick_eq_some_iff y s).1 hPick
  obtain ⟨joined, hJoined⟩ := Option.isSome_iff_exists.1 hJoined
  obtain ⟨passed, hPassed⟩ := Option.isSome_iff_exists.1 hPassed
  have hCustodian : s.custody = some Standard.custody := eq_of_beq hCustody
  obtain ⟨hNone, hRouter, hAdapter, -⟩ := hRun.no_standing_approvals hComplete (d := 0) .begun
  have hDone := Result.of_toOption hJoined
  have hShares : Standard.places.KeepsShares c joined.chain := by
    refine of_submit (Q := fun _ v => Standard.places.KeepsShares c v.chain) ?_ hDone
    exact hRouter { chain := c } (.account 1) [] c.contracts.length
      (.solverDepositByAssets [⟨Standard.pool, 60⟩] 0 (.account 1)) rfl (by decide)
      fun hBusy => by cases hBusy
  have hThrough := Result.of_toOption hPassed
  have hKept : s.custody ≠ some Standard.adapter := by
    rw [hCustodian]
    decide
  have hDeposit := (hAdapter Standard.adapter s { chain := c } (.account 1) hy (by simp) rfl
    (by decide)).1 c.callback [] 40
  have hSame : ∀ t, passed.chain.balance t Standard.adapter = c.balance t Standard.adapter := by
    refine of_submit (Q := fun _ v => ∀ t, v.chain.balance t _ = c.balance t _) ?_ hThrough
    refine after_bind.2 (hDeposit.mono fun minted v hBooks => after_pure.2 fun t => ?_)
    rw [hBooks t, if_neg fun hAt => hKept hAt.2, Nat.add_zero]
  refine ⟨c, s, joined, passed, hRun, hComplete, hy, hCustodian, ?_, hDone,
    hShares _ (by decide) (by decide), hThrough, hSame⟩
  obtain ⟨r, hr, -⟩ := hComplete.router
  obtain ⟨t, ht⟩ := hComplete.stable
  refine hNone Standard.router (by simp) ?_ Standard.stable Standard.adapter ?_
  · exact kind?_of_contract? hr ▸ List.mem_cons_self
  · exact kind?_of_contract? ht ▸ by simp [Contract.kind]

/-- An adapter that serves a pool of the treasury was set up as its own custodian. Whoever deposits
through it adds to its own shares of the vault. -/
theorem WiredRun.own_custodian_keeps_shares : ∃ c out,
    WiredRun Standard.places c ∧ Standard.places.Complete c ∧
      c.pool? Standard.adapter = some Standard.pool ∧
      (c.routing Standard.router).registry.get? Standard.pool =
        some ⟨Standard.pool, Standard.adapter, weightScale, .active⟩ ∧
      c.submit (.account 1) Standard.adapter (.strategy (.deposit 40)) = .ok out ∧
      c.balance Standard.pool Standard.adapter = 0 ∧
      out.chain.balance Standard.pool Standard.adapter = 40 := by
  have hEnd : (Standard.places.follow {} (Standard.vaulted Standard.adapter)).any (fun c =>
      Standard.places.completes c &&
        (c.submit (.account 1) Standard.adapter (.strategy (.deposit 40))).toOption.any (fun out =>
          decide (c.pool? Standard.adapter = some Standard.pool) &&
          decide ((c.routing Standard.router).registry.get? Standard.pool =
            some ⟨Standard.pool, Standard.adapter, weightScale, .active⟩) &&
          decide (c.balance Standard.pool Standard.adapter = 0) &&
          decide (out.chain.balance Standard.pool Standard.adapter = 40))) = true := by
    decide +kernel
  obtain ⟨c, out, hRun, hComplete, hCall, hHolds⟩ := Wiring.exists_submit hEnd
  simp only [Bool.and_eq_true, decide_eq_true_eq] at hHolds
  obtain ⟨⟨⟨hPool, hConfig⟩, hBefore⟩, hAfter⟩ := hHolds
  exact ⟨c, out, hRun, hComplete, hPool, hConfig, hCall, hBefore, hAfter⟩

end Moments

end Treasury
