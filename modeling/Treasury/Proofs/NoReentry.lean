import Treasury.Proofs.Course
import Treasury.Proofs.Fails
import Treasury.Proofs.OrderlyCalls

/-! No call enters a router that is running, however adapters are set to call routers back, and
whatever other routers there are: in the record of a call that succeeds, no call begins that might
not. So no router has ever deposited into an adapter that is set to call it back. A call in which
that would happen fails, and leaves nothing behind. -/
namespace Treasury

open Exec Chain

namespace Exec

variable {α β : Type} {c : Chain} {m : Exec α} {user target : Address} {entry : String}

/-- An outermost call that begins no call that might not, and of which all calls come to their end.
-/
def Settles (c : Chain) (m : Exec α) : Prop :=
  After m { chain := c } fun _ v => c.Orderly v.marks ∧ runningCalls v.marks = []

theorem Heedful.settles [h : Heedful c [] m] : Settles c m := by
  have hStart : c.Stage [] { chain := c } := ⟨.refl c, nofun, orderly_nil⟩
  exact (h.after _ hStart).mono fun _ v ⟨hv, hRunning⟩ => ⟨hv.orderly, hRunning⟩

theorem Settles.map (h : Settles c m) {answer : α → β} : Settles c (answer <$> m) := after_map.2 h

theorem Settles.answered (h : Settles c m) {answer : α → β} :
    Settles c (do let a ← m; pure (answer a)) := After.answered h

/-- An entry point settles that makes no further call, whatever it changes. -/
theorem settles_entering {body : Exec α} (hUser : c.kind? user ≠ some .router)
    (hBody : ∀ u, c.Orderly u.marks →
      After body u fun _ v => c.Orderly v.marks ∧ runningCalls v.marks = runningCalls u.marks) :
    Settles c (entering user target entry body) := by
  have hMay : c.MayBegin (runningCalls []) ⟨user, target, entry⟩ :=
    ⟨fun _ => nofun, fun _ hRouter => absurd hRouter hUser⟩
  have hFirst : c.Orderly ([] ++ [.entered user target entry]) :=
    orderly_nil.append fun _ _ _ h => by
      cases h
      exact hMay
  refine after_entering.2 ((hBody _ hFirst).mono fun _ v ⟨hv, hRunning⟩ => ?_)
  refine ⟨hv.append nofun, ?_⟩
  rw [runningCalls_append, hRunning]
  rfl

theorem settles_amend {σ : Type} [Storage σ] {change : σ → Result σ}
    (hUser : c.kind? user ≠ some .router) : Settles c (amend user target entry change) :=
  settles_entering hUser fun u hu => by
    simp only [after_bind, after_view, after_result, after_put]
    exact fun _ _ _ _ => ⟨hu, trivial⟩

end Exec

section Commands

variable {c : Chain} {locked : List Address} {user target : Address} {back : Router.Callback}

instance Token.Command.heedful_run (command : Token.Command) :
    Heedful c locked (command.run target user) := by
  unfold run
  split <;> infer_instance

instance Yield.Command.heedful_run (command : Yield.Command) :
    Heedful c locked (command.run target user) := by
  unfold run
  split <;> infer_instance

instance ShareToken.Command.heedful_run [back.Heeds c] (command : ShareToken.Command) :
    Heedful c [] (command.run back target user) := by
  unfold run
  split <;> infer_instance

theorem Token.Stable.Command.settles_run (hUser : c.kind? user ≠ some .router)
    (command : Token.Stable.Command) : Settles c (command.run target user) := by
  cases command with
  | mint account amount =>
    refine settles_entering hUser fun u hu => ?_
    simp only [after_bind, after_view, after_result, after_put, after_mark]
    intro _ _ _ _
    refine ⟨hu.append fun _ _ _ hEntered => ?_, runningCalls_append _⟩
    cases hEntered
  | burn | addMinter | removeMinter => exact settles_amend hUser

theorem Pool.Registry.Command.settles_run (hUser : c.kind? user ≠ some .router)
    (command : Pool.Registry.Command) : Settles c (command.run target user) := by
  cases command with
  | push | update => exact (settles_amend hUser).answered
  | swapRemove pool =>
    refine settles_entering hUser fun u hu => ?_
    simp only [after_bind, after_view, after_result, after_put, after_pure]
    exact fun _ _ _ _ => ⟨hu, trivial⟩

theorem Custody.Command.settles_run (hUser : c.kind? user ≠ some .router)
    (command : Custody.Command) : Settles c (command.run target user) := by
  cases command with
  | transferShares => exact Custody.heedful_transferShares.settles
  | bindAdapter => exact Custody.heedful_bindAdapter.settles
  | unbindAdapter | supportPool | setDust | setAdmin => exact settles_amend hUser
  | unsupportPool => exact Custody.heedful_unsupportPool.settles
  | setRouter router =>
    refine settles_entering hUser fun u hu => ?_
    simp only [after_bind, after_view, after_result, after_put, after_emit]
    exact fun _ _ _ _ => ⟨hu, trivial⟩

theorem Strategy.Command.settles_run [back.Heeds c] (hUser : c.kind? user ≠ some .router)
    (command : Strategy.Command) : Settles c (command.run back target user) := by
  cases command with
  | deposit amount =>
    have : Heedful c [] (Strategy.deposit back [] target user amount) :=
      heedful_deposit fun hRouter => absurd hRouter hUser
    exact this.settles.answered
  | withdraw => exact heedful_withdraw.settles.map
  | fund amount =>
    have : Heedful c [] (FixedRate.fund target user amount) := by
      unfold FixedRate.fund
      infer_instance
    exact this.settles.answered
  | setRate =>
    refine Settles.answered (settles_entering hUser fun u hu => after_bind.2 (after_view.2 ?_))
    intro x _
    cases x with
    | fixedRate | synthetic =>
      simp only [after_bind, after_result, after_put]
      exact fun _ _ => ⟨hu, trivial⟩
    | _ => exact after_throw.2 trivial
  | setPaused =>
    refine Settles.answered (settles_entering hUser fun u hu => after_bind.2 (after_view.2 ?_))
    intro x _
    cases x with
    | fixedRate | wrapped =>
      simp only [after_bind, after_result, after_put]
      exact fun _ _ => ⟨hu, trivial⟩
    | _ => exact after_throw.2 trivial
  | turn => exact (settles_amend hUser).answered

theorem Construction.settles_run (hUser : c.kind? user ≠ some .router)
    (construction : Construction) : Settles c (construction.run target user) := by
  cases construction with
  | wrapped =>
    refine settles_entering hUser fun u hu => ?_
    simp only [after_bind, after_view, after_result, after_put]
    exact fun _ _ _ _ _ _ => ⟨hu, trivial⟩
  | _ => exact settles_amend hUser

theorem Command.settles_run [back.Heeds c] (hUser : c.kind? user ≠ some .router)
    (command : Command) : Settles c (command.run back target user) := by
  cases command with
  | token command => exact (Token.Command.heedful_run command).settles
  | yieldVault command => exact (Yield.Command.heedful_run command).settles
  | share command => exact (ShareToken.Command.heedful_run command).settles
  | ledger command | roles command =>
    refine Settles.answered ?_
    cases command <;> exact settles_amend hUser
  | stable command => exact (command.settles_run hUser).answered
  | registry command => exact command.settles_run hUser
  | strategy command => exact command.settles_run hUser
  | custody command => exact (command.settles_run hUser).answered
  | router command => exact (Router.heedful_run (f := ⟨target, user, []⟩) command).settles
  | construct construction =>
    refine after_bind.2 (after_view.2 fun _ _ => after_bind.2 (after_get.2 ?_))
    split
    · exact (construction.settles_run hUser).answered
    · exact after_throw.2 trivial
  | unlisted entry => exact after_bind.2 (after_view.2 fun _ _ => after_throw.2 trivial)

end Commands

/-- Deploy a standard treasury, another router that the adapter of one pool may pause, and two pools
whose adapters call a router back: the first one the treasury's own. -/
def Standard.recalled : List Action :=
  opening 0 { admin := .account 0 } ++
    [.deploy 0 (.router (Parameters.setup { admin := .account 0 })),
      .deploy 0 (.synthetic (.account 0) stable custody),
      .deploy 0 (.synthetic (.account 0) stable custody),
      .call 0 router (.router (.registerAdapter (.ofNumber 6) (.ofNumber 6))),
      .call 0 router (.router (.registerAdapter (.ofNumber 7) (.ofNumber 7))),
      .call 0 router (.router (.addPool (.ofNumber 6) 500_000)),
      .call 0 router (.router (.addPool (.ofNumber 7) 500_000)),
      .call 0 router (.router (.grantRole Roles.solver (.account 0))),
      .call 0 (.ofNumber 5) (.router (.grantRole Roles.pauser (.ofNumber 7))),
      .call 0 (.ofNumber 6) (.strategy (.turn (.callbackTarget (some router)))),
      .call 0 (.ofNumber 7) (.strategy (.turn (.callbackTarget (some (.ofNumber 5))))),
      .call 0 (.ofNumber 7) (.strategy (.turn (.callbackPauses true))),
      .call 0 stable (.stable (.mint (.account 0) 20)),
      .call 0 stable (.token (.approve router 20))]

namespace Run

variable {c : Chain}

/-- No call that may change a router begins while another one of the same router is running, in the
record of any call by an account that succeeds; and all calls of the record come to their end. In
particular no router has deposited, in whatever flow, into an adapter that is set to call this
router back. A call that does not succeed changes nothing. -/
theorem no_reentry (hRun : Run Address.IsAccount (fun _ => True) c) (user : Digest)
    (target : Address) (command : Command) :
    (∀ out, c.submit (.account user) target command = .ok out →
      (∀ before caller a entry after, out.marks = before ++ .entered caller a entry :: after →
        c.kind? a = some .router → ∀ call ∈ runningCalls before, call.callee ≠ a) ∧
      (∀ a x, c.kind? a = some .router → c.Armed x a →
        .entered a x "deposit_into_strategy" ∉ out.marks) ∧
      runningCalls out.marks = []) ∧
    ((∀ out, c.submit (.account user) target command ≠ .ok out) →
      c.after (.account user) target command = c) := by
  have hUser : c.kind? (.account user) ≠ some .router := by simp [hRun.account_free user]
  refine ⟨fun out hOut => ?_, fun hFails => ?_⟩
  · have hSettles : Settles c (command.run (Router.nested c.contracts.length) target _) :=
      command.settles_run hUser
    obtain ⟨hOrderly, hEnded⟩ := of_submit hSettles hOut
    refine ⟨fun before caller a entry after hMarks hRouter => ?_, ?_, hEnded⟩
    · exact (hOrderly before caller a entry after hMarks).callee hRouter
    · intro a x hRouter hArmed hDeposit
      obtain ⟨before, after, hMarks⟩ := List.append_of_mem hDeposit
      exact (hOrderly before a x _ after hMarks).deposit rfl hRouter hArmed
  · cases hCall : c.submit (.account user) target command with
    | ok out => exact absurd hCall (hFails out)
    | error e => exact after_of_error hCall

/-- A router deposits into an adapter that pauses another router in the middle of the deposit; into
an adapter that is set to call the depositing router back it cannot deposit. -/
theorem no_reentry_paused : ∃ c out, Run Address.IsAccount (fun _ => True) c ∧
    c.submit (.account 0) Standard.router (.router
      (.solverDepositByAssets [⟨.ofNumber 7, 10⟩] 0 (.account 0))) = .ok out ∧
    .entered Standard.router (.ofNumber 7) "deposit_into_strategy" ∈ out.marks ∧
    .entered (.ofNumber 7) (.ofNumber 5) "pause" ∈ out.marks ∧
    runningCalls out.marks = [] ∧
    c.Armed (.ofNumber 6) Standard.router ∧
    c.after (.account 0) Standard.router (.router
      (.solverDepositByAssets [⟨.ofNumber 6, 10⟩] 0 (.account 0))) = c := by
  have hEnd : (Action.follow (fun _ _ => true) {} Standard.recalled).any (fun c =>
      decide (c.Armed (.ofNumber 6) Standard.router) &&
      (c.submit (.account 0) Standard.router (.router
        (.solverDepositByAssets [⟨.ofNumber 6, 10⟩] 0 (.account 0)))).toOption.isNone &&
      (c.submit (.account 0) Standard.router (.router
        (.solverDepositByAssets [⟨.ofNumber 7, 10⟩] 0 (.account 0)))).toOption.any fun out =>
        decide (.entered Standard.router (.ofNumber 7) "deposit_into_strategy" ∈ out.marks) &&
          decide (.entered (.ofNumber 7) (.ofNumber 5) "pause" ∈ out.marks)) = true := by
    decide +kernel
  obtain ⟨c, hCourse, hHolds⟩ := Action.exists_course (fun _ _ _ _ => trivial) hEnd
  simp only [Bool.and_eq_true, Option.any_eq_true, decide_eq_true_eq, Option.isNone_iff_eq_none]
    at hHolds
  obtain ⟨⟨hArmed, hNone⟩, out, hOut, hDeposit, hPause⟩ := hHolds
  have hRun := hCourse.run
  refine ⟨c, out, hRun, Result.of_toOption hOut, hDeposit, hPause, ?_, hArmed, ?_⟩
  · exact ((no_reentry hRun 0 Standard.router _).1 out (Result.of_toOption hOut)).2.2
  · refine (no_reentry hRun 0 Standard.router _).2 fun out hOut' => ?_
    rw [hOut'] at hNone
    cases hNone

end Run

end Treasury
