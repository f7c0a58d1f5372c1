import Treasury.Proofs.Ends
import Treasury.Proofs.Moves
import Treasury.Router.SolverFlow
import Treasury.Router.UserFlow
import Treasury.Router.Governance
import Treasury.Router.Reinvestment
import Treasury.Router.Dispatch
import Treasury.Share.Exchange

/-! All calls of a treasury are additive: moves of tokens, deposits and withdrawals through
adapters, and what routers and the share token do with them. So what each comes to can be read off
its parts. A callback is additive if the calls are that adapters make with it. -/
namespace Treasury

open Exec

namespace Token

variable {caller token taker owner spender : Address} {n : Amount}

instance additive_keep {entry : String} {onStable : Stable → Result Stable}
    {onLedger : Ledger → Result Ledger} : Additive (keep token entry onStable onLedger) := by
  unfold keep
  refine @Additive.bind _ _ _ _ _ fun x => ?_
  split <;> infer_instance

instance additive_transfer : Additive (transfer caller token taker n) := by
  unfold transfer
  infer_instance

instance additive_approve : Additive (approve caller token spender n) := by
  unfold approve
  infer_instance

/-- Giving an allowance on the way is additive, so only what comes after it counts. -/
instance (priority := high) additive_approve_bind {β : Type} {f : Unit → Exec β}
    [∀ u, Additive (f u)] : Additive (approve caller token spender n >>= f) := .bind

instance additive_transferFrom : Additive (transferFrom caller token owner taker n) := by
  unfold transferFrom
  infer_instance

variable {c c' : Chain} {u : Unit} {es : List (Address × Event)}

theorem ends_keep {entry : String} (m : Move) :
    Ends (keep token entry m.onStable m.onLedger) c u c' es ↔ c.Moves token m c' ∧ [] = es := by
  simp only [keep, ends_view_bind, View.contract_eq_ok]
  constructor
  · rintro ⟨old, hOld, h⟩
    split at h
    · next changed hKeep =>
      simp only [ends_result_bind, ends_put] at h
      obtain ⟨new, rfl, hPut, hEs⟩ := h
      exact ⟨⟨old, new, hOld, hKeep, hPut.symm⟩, hEs⟩
    · cases ends_throw.1 h
  · rintro ⟨⟨old, new, hOld, hKeep, rfl⟩, hEs⟩
    refine ⟨old, hOld, ?_⟩
    rw [hKeep]
    simp only [ends_result_bind, ends_put]
    exact ⟨new, rfl, rfl, hEs⟩

@[simp] theorem ends_transfer : Ends (transfer caller token taker n) c u c' es ↔
    c.Moves token (.transfer caller taker n) c' ∧ [] = es := by
  rw [transfer, ends_entering]
  refine (ends_bind_of_quiet fun _ _ _ => ends_keep (.transfer caller taker n)).trans ?_
  simp only [ends_mark]
  exact ⟨fun ⟨_, _, h, hc, hEs⟩ => ⟨hc ▸ h, hEs⟩, fun ⟨h, hEs⟩ => ⟨u, c', h, rfl, hEs⟩⟩

@[simp] theorem ends_approve : Ends (approve caller token spender n) c u c' es ↔
    c.Moves token (.approve caller spender n) c' ∧ [] = es := by
  rw [approve, ends_entering]
  exact ends_keep (.approve caller spender n)

@[simp] theorem ends_transferFrom : Ends (transferFrom caller token owner taker n) c u c' es ↔
    c.Moves token (.transferFrom caller owner taker n) c' ∧ [] = es := by
  rw [transferFrom, ends_entering]
  refine (ends_bind_of_quiet fun _ _ _ => ends_keep (.transferFrom caller owner taker n)).trans ?_
  simp only [ends_mark]
  exact ⟨fun ⟨_, _, h, hc, hEs⟩ => ⟨hc ▸ h, hEs⟩, fun ⟨h, hEs⟩ => ⟨u, c', h, rfl, hEs⟩⟩

variable {β : Type} {f : Unit → Exec β} {b : β} [∀ u, Additive (f u)]

@[simp] theorem ends_transfer_bind : Ends (transfer caller token taker n >>= f) c b c' es ↔
    ∃ c₁, c.Moves token (.transfer caller taker n) c₁ ∧ Ends (f ()) c₁ b c' es := by
  rw [ends_bind_of_quiet fun _ _ _ => ends_transfer]
  exact ⟨fun ⟨_, h⟩ => h, fun h => ⟨(), h⟩⟩

@[simp] theorem ends_approve_bind : Ends (approve caller token spender n >>= f) c b c' es ↔
    ∃ c₁, c.Moves token (.approve caller spender n) c₁ ∧ Ends (f ()) c₁ b c' es := by
  rw [ends_bind_of_quiet fun _ _ _ => ends_approve]
  exact ⟨fun ⟨_, h⟩ => h, fun h => ⟨(), h⟩⟩

@[simp] theorem ends_transferFrom_bind :
    Ends (transferFrom caller token owner taker n >>= f) c b c' es ↔
      ∃ c₁, c.Moves token (.transferFrom caller owner taker n) c₁ ∧ Ends (f ()) c₁ b c' es := by
  rw [ends_bind_of_quiet fun _ _ _ => ends_transferFrom]
  exact ⟨fun ⟨_, h⟩ => h, fun h => ⟨(), h⟩⟩

end Token

namespace Yield

instance additive_deposit {self caller : Address} {assets : Amount} {receiver : Address} :
    Additive (Yield.deposit self caller assets receiver) := by
  unfold Yield.deposit
  infer_instance

instance additive_redeem {self caller : Address} {shares : Amount} {receiver owner : Address} :
    Additive (Yield.redeem self caller shares receiver owner) := by
  unfold Yield.redeem
  infer_instance

end Yield

/-- Calls that come back to a router add to the record. -/
class Router.Callback.Adds (back : Router.Callback) : Prop where
  pause : ∀ f, Additive (back f .pause)
  reinvest : ∀ f, Additive (back f .reinvestFees)

namespace Strategy

variable {back : Router.Callback} [hBack : back.Adds] {locked : List Address}
  {self caller adapter : Address} {n : Amount}

instance additive_callBack {s : Synthetic} : Additive (s.callBack back locked self) := by
  unfold Synthetic.callBack
  split
  · infer_instance
  · split
    · exact hBack.pause _
    · exact hBack.reinvest _

instance FixedRate.additive_deposit {s : FixedRate} : Additive (s.deposit self caller n) := by
  unfold FixedRate.deposit
  infer_instance

instance Synthetic.additive_deposit {s : Synthetic} :
    Additive (s.deposit back locked self caller n) := by
  unfold Synthetic.deposit
  infer_instance

instance Wrapped.additive_deposit {s : Wrapped} : Additive (s.deposit self caller n) := by
  unfold Wrapped.deposit
  infer_instance

instance additive_deposit : Additive (Strategy.deposit back locked adapter caller n) := by
  unfold Strategy.deposit
  refine @Additive.entering _ _ _ _ _ (@Additive.bind _ _ _ _ _ fun x => ?_)
  split <;> infer_instance

instance FixedRate.additive_withdraw {s : FixedRate} : Additive (s.withdraw self caller n) := by
  unfold FixedRate.withdraw
  infer_instance

instance Synthetic.additive_withdraw {s : Synthetic} : Additive (s.withdraw self caller n) := by
  unfold Synthetic.withdraw
  infer_instance

instance Wrapped.additive_withdraw {s : Wrapped} : Additive (s.withdraw self caller n) := by
  unfold Wrapped.withdraw
  infer_instance

instance additive_withdraw : Additive (Strategy.withdraw adapter caller n) := by
  unfold Strategy.withdraw
  refine @Additive.entering _ _ _ _ _ (@Additive.bind _ _ _ _ _ fun x => ?_)
  split <;> infer_instance

end Strategy

instance Custody.additive_transferShares {self caller pool : Address} {n : Amount}
    {recipient : Address} : Additive (Custody.transferShares self caller pool n recipient) := by
  unfold Custody.transferShares
  infer_instance

namespace ShareToken

instance additive_mintFor {self caller receiver : Address} {shares : Amount} :
    Additive (mintFor self caller receiver shares) := by
  unfold mintFor
  infer_instance

instance additive_burnFor {self caller initiator owner : Address} {shares : Amount} :
    Additive (burnFor self caller initiator owner shares) := by
  unfold burnFor
  infer_instance

end ShareToken

namespace Router

variable {back : Callback} [back.Adds] {f : Frame} {config : Pool.Config} {n : Amount}

instance additive_depositIntoPool : Additive (depositIntoPool back f config n) := by
  unfold depositIntoPool
  infer_instance

set_option synthInstance.maxSize 256 in
instance additive_withdrawShares : Additive (withdrawShares f config n) := by
  unfold withdrawShares
  infer_instance

instance additive_withdrawValue : Additive (withdrawValue f config n) := by
  unfold withdrawValue
  infer_instance

instance additive_pullStable {owner : Address} : Additive (pullStable f owner n) := by
  unfold pullStable
  infer_instance

instance additive_pause : Additive (pause f) := by
  unfold pause store
  infer_instance

instance additive_reinvestFees : Additive (reinvestFees back f) := by
  unfold reinvestFees
  refine @additive_guarded _ _ _ _ fun f s => ?_
  refine @Additive.bind _ _ _ _ _ fun _ => @Additive.bind _ _ _ _ _ fun idle =>
    @Additive.bind _ _ _ _ _ fun _ => ?_
  split <;> infer_instance

instance adds_nested (depth : Nat) : (nested depth).Adds := by
  induction depth with
  | zero => exact ⟨fun _ => Additive.throw _, fun _ => Additive.throw _⟩
  | succ depth ih =>
    constructor <;> intro f <;> unfold nested run <;> infer_instance

instance additive_purchase {p : Purchase} : Additive (purchase back f p) := by
  unfold purchase
  infer_instance

instance additive_handleDeposit {initiator receiver : Address} {assets shares : Amount} :
    Additive (handleDeposit back f initiator assets shares receiver) := by
  unfold handleDeposit
  refine @additive_guarded _ _ _ _ fun f s => ?_
  refine @Additive.bind _ _ _ _ _ fun _ => @Additive.bind _ _ _ _ _ fun _ =>
    @Additive.bind _ _ _ _ _ fun _ => @Additive.bind _ _ _ _ _ fun _ =>
    @Additive.bind _ _ _ _ _ fun _ => @Additive.bind _ _ _ _ _ fun pools => ?_
  split <;> infer_instance

instance additive_handleWithdraw {initiator receiver owner : Address} {gross net : Amount} :
    Additive (handleWithdraw f initiator receiver owner gross net) := by
  unfold handleWithdraw
  refine @additive_guarded _ _ _ _ fun f s => ?_
  refine @Additive.bind _ _ _ _ _ fun _ => @Additive.bind _ _ _ _ _ fun _ =>
    @Additive.bind _ _ _ _ _ fun _ => @Additive.bind _ _ _ _ _ fun split =>
    @Additive.bind _ _ _ _ _ fun _ => @Additive.bind _ _ _ _ _ fun pools =>
    @Additive.bind _ _ _ _ _ fun i => ?_
  split <;> infer_instance

instance additive_solverDeposit {s : State} {purchases : List Purchase} {least : Amount}
    {receiver : Address} : Additive (solverDeposit back f s purchases least receiver) := by
  unfold solverDeposit
  infer_instance

instance additive_settleWithdrawal {s : State} {token receiver owner : Address}
    {split : Fee.Split} {kept shares : Amount} {legs : Nat} :
    Additive (settleWithdrawal f s token receiver owner split kept shares legs) := by
  unfold settleWithdrawal
  infer_instance

end Router

end Treasury
