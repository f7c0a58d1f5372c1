import Treasury.Proofs.Books
import Treasury.Router.Dispatch
import Treasury.Share.Exchange

/-! A standstill: while all routers are paused, everything that moves value through a router fails,
whoever asks for it and however deep inside another call. Pausing fails, too, since nothing is left
to pause. -/
namespace Treasury

open Exec Chain

/-- Every router is paused. -/
def Chain.Paused (c : Chain) : Prop :=
  ∀ a s, c.contract? a = some (.router s) → s.paused = true

/-- No contract but a router matters. -/
theorem Chain.Paused.put {c : Chain} (h : c.Paused) {a : Address} {old new : Contract}
    (hOld : c.contract? a = some old) (hNew : new.kind ≠ .router) : (c.put a new).Paused := by
  intro b s hs
  by_cases hb : b = a
  · subst hb
    rw [contract?_put_self new hOld] at hs
    exact absurd (by rw [Option.some.inj hs]; rfl) hNew
  · rw [contract?_put_of_ne c new hb] at hs
    exact h b s hs

namespace Router

variable {f : Frame} {back : Callback} {w : World}

/-- The commands that a running router obeys only: the flows of value, and to pause. -/
def Command.needsRunning : Command → Bool
  | handleDeposit .. | handleWithdraw .. | solverDepositByAssets .. | solverDepositByShares ..
  | solverWithdrawByAssets .. | solverWithdrawByShares .. | rebalanceByShares ..
  | rebalanceByValue .. | rebalanceExternally .. | reinvestFees | pause => true
  | _ => false

/-- A guarded body that fails in a paused router fails at a standstill. -/
theorem after_guarded_paused {α : Type} {entry : String} {body : Frame → State → Exec α}
    (hPaused : w.chain.Paused)
    (hBody : ∀ f s u, s.paused = true → After (body f s) u fun _ _ => False) :
    After (guarded f entry body) w fun _ _ => False := by
  rw [after_guarded]
  intro s hs _
  exact hBody _ s _ (hPaused _ s hs)

theorem after_handleDeposit_paused {initiator receiver : Address} {assets shares : Amount}
    (hPaused : w.chain.Paused) :
    After (handleDeposit back f initiator assets shares receiver) w fun _ _ => False := by
  apply after_guarded_paused hPaused
  intro f s u hs
  simp [State.requireRunning, hs]

theorem after_handleWithdraw_paused {initiator receiver owner : Address} {gross expected : Amount}
    (hPaused : w.chain.Paused) :
    After (handleWithdraw f initiator receiver owner gross expected) w fun _ _ => False := by
  apply after_guarded_paused hPaused
  intro f s u hs
  simp [State.requireRunning, hs]

/-- No router does anything that needs it to run. -/
theorem after_run_paused (hPaused : w.chain.Paused) {command : Command}
    (hNeeds : command.needsRunning = true) :
    After (run back f command) w fun _ _ => False := by
  have hBind {α β : Type} {m : Exec α} {g : α → Exec β} (h : After m w fun _ _ => False) :
      After (m >>= g) w fun _ _ => False := after_bind.2 (h.mono fun _ _ => False.elim)
  have hMap {α β : Type} {m : Exec α} {g : α → β} (h : After m w fun _ _ => False) :
      After (g <$> m) w fun _ _ => False := after_map.2 h
  cases command with
  | handleDeposit => exact hBind (after_handleDeposit_paused hPaused)
  | handleWithdraw => exact hBind (after_handleWithdraw_paused hPaused)
  | solverDepositByAssets | solverDepositByShares | solverWithdrawByAssets | rebalanceByShares
  | rebalanceByValue | rebalanceExternally =>
    exact hMap (after_guarded_paused hPaused fun f s u hs => by simp [State.requireRunning, hs])
  | solverWithdrawByShares | reinvestFees | pause =>
    exact hBind (after_guarded_paused hPaused fun f s u hs => by simp [State.requireRunning, hs])
  | _ => cases hNeeds

/-- No call comes back to a router either. -/
theorem after_nested_paused (hPaused : w.chain.Paused) (depth : Nat) {command : Command}
    (hNeeds : command.needsRunning = true) :
    After (nested depth f command) w fun _ _ => False := by
  cases depth with
  | zero => exact after_throw.2 trivial
  | succ depth => exact after_discard.2 (after_run_paused hPaused hNeeds)

end Router

namespace ShareToken

variable {self caller receiver owner : Address} {w : World}

theorem after_deposit_paused {back : Router.Callback} {assets : Amount} (hPaused : w.chain.Paused) :
    After (deposit back self caller assets receiver) w fun _ _ => False := by
  simp only [deposit, after_entering, after_bind, after_view, after_result]
  intros
  exact After.mono (Router.after_handleDeposit_paused hPaused) fun _ _ => False.elim

theorem after_redeem_paused {shares : Amount} (hPaused : w.chain.Paused) :
    After (redeem self caller shares receiver owner) w fun _ _ => False := by
  simp only [redeem, after_entering, after_bind, after_view, after_result, after_update]
  intro _ _ _ _ _ _ _ _ t t' hOld _ _ _ _ _
  have hStill : (w.chain.put self (.share t')).Paused :=
    hPaused.put hOld (by simp [Contract.kind])
  exact After.mono (Router.after_handleWithdraw_paused hStill) fun _ _ => False.elim

end ShareToken

end Treasury
