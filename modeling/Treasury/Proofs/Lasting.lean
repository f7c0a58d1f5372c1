import Treasury.Proofs.Calls

/-! What most calls leave as it is. Routers, custody contracts and records of roles hold what lasts;
a view of it shows nothing of other contracts, and of routers neither fees nor whether they run.
Such a view looks the same after every call that is to another contract, after every flow of value,
and after what a custody contract gives away. -/
namespace Treasury

open Exec Chain

/-- The kinds of contract that hold what lasts. -/
def Contract.Kind.isLasting : Contract.Kind → Bool
  | router | custody | roles => true
  | _ => false

/-- A view of what lasts. -/
structure Contract.Lasting {α : Type} (F : Contract → Option α) : Prop where
  aside : ∀ x, x.kind.isLasting = false → F x = none
  fees : ∀ s fees, F (.router { s with fees }) = F (.router s)
  paused : ∀ s, F (.router { s with paused := true }) = F (.router s)

/-- Two chains look the same to a view of contracts. -/
def Chain.SameBy {α : Type} (F : Contract → α) (c c' : Chain) : Prop :=
  ∀ a, (c'.contract? a).map F = (c.contract? a).map F

/-- Whether a call is to a contract that does not hold what lasts. -/
def Command.isAside : Command → Bool
  | roles _ | custody _ | router _ | construct _ => false
  | _ => true

variable {α : Type} {F : Contract → Option α}

namespace Contract.Lasting

variable {c c' : Chain} {user a : Address} {old new : Contract}

theorem bare (h : Lasting F) (x : Contract) : F x.bare = F x := by
  cases hLasting : x.kind.isLasting with
  | true => cases x <;> first | rfl | cases hLasting
  | false => rw [h.aside x hLasting, h.aside _ (by rw [kind_bare, hLasting])]

/-- A contract is changed that does not hold what lasts. -/
theorem put (h : Lasting F) (hOld : c.contract? a = some old) (hAside : old.kind.isLasting = false)
    (hSame : new.kind = old.kind) : c.SameBy F (c.put a new) := by
  apply map_put hOld
  rw [h.aside old hAside, h.aside new (hSame ▸ hAside)]

theorem alike (h : Lasting F) (hAlike : Alike c c') : c.SameBy F c' := hAlike.map h.bare

theorem flow (h : Lasting F) (hFlow : Flow user c c') : c.SameBy F c' :=
  hFlow.map h.bare h.fees h.paused

end Contract.Lasting

section Commands

variable {user self : Address} {w : World} {back : Router.Callback}

/-- A contract that does not hold what lasts changes its storage. -/
theorem after_amend_aside {σ : Type} [Storage σ] {entry : String} {change : σ → Result σ}
    (hF : Contract.Lasting F) (hAside : ∀ s : σ, (Storage.wrap s).kind.isLasting = false)
    (hSame : ∀ s t : σ, (Storage.wrap s).kind = (Storage.wrap t).kind) :
    After (amend user self entry change) w fun _ v => w.chain.SameBy F v.chain :=
  after_amend fun s t _ hOld _ hv => hv ▸ hF.put hOld (hAside s) (hSame t s)

theorem Exec.After.aside {β : Type} {m : Exec β} (hF : Contract.Lasting F)
    (h : After m w fun _ v => Deal (Heeds user) user w.chain v.chain) :
    After m w fun _ v => w.chain.SameBy F v.chain :=
  h.mono fun _ _ hDeal => hF.alike hDeal.alike

theorem Token.Command.after_run_aside (hF : Contract.Lasting F) (command : Token.Command) :
    After (command.run self user) w fun _ v => w.chain.SameBy F v.chain := by
  cases command <;> simp only [Token.Command.run, after_bind, after_pure]
  · exact Token.after_transfer.mono fun _ _ hMove => hF.alike hMove.alike
  · exact Token.after_approve.mono fun _ _ hMove => hF.alike hMove.alike
  · exact Token.after_transferFrom.mono fun _ _ hMove => hF.alike hMove.alike

theorem Token.Stable.Command.after_run_aside (hF : Contract.Lasting F)
    (command : Token.Stable.Command) :
    After (command.run self user) w fun _ v => w.chain.SameBy F v.chain := by
  cases command with
  | mint account n =>
    simp only [Token.Stable.Command.run, after_entering, after_bind, after_view, after_result,
      View.callee_eq_ok, after_put, after_mark]
    exact fun t hOld t' _ => hF.put hOld (by rfl) (by rfl)
  | burn | addMinter | removeMinter =>
    exact after_amend_aside hF (fun _ => rfl) fun _ _ => rfl

theorem Token.Ledger.Command.after_run_aside (hF : Contract.Lasting F)
    (command : Token.Ledger.Command) :
    After (command.run self user) w fun _ v => w.chain.SameBy F v.chain := by
  cases command <;> exact after_amend_aside hF (fun _ => rfl) fun _ _ => rfl

theorem Pool.Registry.Command.after_run_aside (hF : Contract.Lasting F)
    (command : Pool.Registry.Command) :
    After (command.run self user) w fun _ v => w.chain.SameBy F v.chain := by
  cases command with
  | push | update =>
    simp only [Pool.Registry.Command.run, after_bind, after_pure]
    exact after_amend_aside hF (fun _ => rfl) fun _ _ => rfl
  | swapRemove pool =>
    simp only [Pool.Registry.Command.run, after_entering, after_bind, after_view, after_result,
      View.callee_eq_ok, after_put, after_pure]
    exact fun r hOld _ _ => hF.put hOld (by rfl) (by rfl)

theorem Yield.Command.after_run_aside (hF : Contract.Lasting F) (command : Yield.Command) :
    After (command.run self user) w fun _ v => w.chain.SameBy F v.chain := by
  have hUser := acts_user w.chain user
  cases command <;> simp only [Yield.Command.run, after_map, after_bind, after_pure]
  · exact After.aside hF (Yield.after_deposit hUser)
  · exact After.aside hF (Yield.after_redeem (.inl rfl))
  · exact After.aside hF (Yield.after_accrueYield hUser)

theorem Strategy.Command.after_run_aside (hF : Contract.Lasting F)
    (hBack : Router.CallsBack user back) (command : Strategy.Command) :
    After (command.run back self user) w fun _ v => w.chain.SameBy F v.chain := by
  have hUser := acts_user w.chain user
  cases command with
  | deposit n =>
    simp only [Strategy.Command.run, after_bind, after_pure]
    exact (Strategy.after_deposit hBack hUser).mono fun _ _ => hF.flow
  | withdraw shares =>
    simp only [Strategy.Command.run, after_map]
    exact After.aside hF (Strategy.after_withdraw hUser)
  | fund n =>
    simp only [Strategy.Command.run, after_bind, after_pure]
    exact After.aside hF (Strategy.FixedRate.after_fund hUser)
  | setRate rate =>
    simp only [Strategy.Command.run, Strategy.setRate, after_bind, after_pure, after_entering,
      after_view, View.contract_eq_ok]
    intro x hx
    cases x <;> simp only [after_bind, after_result, after_put, after_throw]
    all_goals exact fun s' _ => hF.put hx (by rfl) (by rfl)
  | setPaused paused =>
    simp only [Strategy.Command.run, Strategy.setPaused, after_bind, after_pure, after_entering,
      after_view, View.contract_eq_ok]
    intro x hx
    cases x <;> simp only [after_bind, after_result, after_put, after_throw]
    all_goals exact fun s' _ => hF.put hx (by rfl) (by rfl)
  | turn switch =>
    simp only [Strategy.Command.run, after_bind, after_pure]
    exact after_amend_aside hF (fun _ => rfl) fun _ _ => rfl

theorem ShareToken.Command.after_run_aside (hF : Contract.Lasting F)
    (hBack : Router.CallsBack user back) (command : ShareToken.Command) :
    After (command.run back self user) w fun _ v => w.chain.SameBy F v.chain := by
  cases command with
  | deposit =>
    simp only [ShareToken.Command.run, after_map]
    exact (ShareToken.after_deposit hBack rfl).mono fun _ _ => hF.flow
  | redeem =>
    simp only [ShareToken.Command.run, after_map]
    exact (ShareToken.after_redeem rfl).mono fun _ _ => hF.flow
  | mintFor | burnFor | setRouter =>
    simp only [ShareToken.Command.run, after_bind, after_pure]
    exact after_amend_aside hF (fun _ => rfl) fun _ _ => rfl

/-- A call to a contract that does not hold what lasts leaves it as it is. -/
theorem Command.after_run_aside (hF : Contract.Lasting F) (hBack : Router.CallsBack user back)
    {command : Command} (hAside : command.isAside = true) :
    After (command.run back self user) w fun _ v => w.chain.SameBy F v.chain := by
  cases command with
  | token command => exact command.after_run_aside hF
  | stable command => exact After.answered (command.after_run_aside hF)
  | ledger command => exact After.answered (command.after_run_aside hF)
  | registry command => exact command.after_run_aside hF
  | share command => exact command.after_run_aside hF hBack
  | yieldVault command => exact command.after_run_aside hF
  | strategy command => exact command.after_run_aside hF hBack
  | unlisted entry => simp only [Command.run, after_bind, after_throw, after_view, implies_true]
  | roles | custody | router | construct => cases hAside

end Commands

end Treasury
