import Mathlib.Logic.IsEmpty.Defs
import Treasury.Proofs.Additive
import Treasury.Proofs.Fails

/-! Distrust. A router checks what its pools do, and there are four causes for which it turns down
what one has done. Nothing else that takes part in a call ever stops for these: neither tokens,
adapters and vaults, nor the custody contract and the share token. So the router's own checks are
all that is left to look at. -/
namespace Treasury

open Exec

/-- A cause for which a router turns down what a pool has done, or what has come of it. -/
abbrev Refusal.Distrusts : Refusal → Prop
  | poolMismatch | sharesMismatch | amountMismatch | slippageExceeded => True
  | _ => False

/-- A fault by which a router turns down what a pool has done, or what has come of it. -/
abbrev Fault.Distrusts : Fault → Prop
  | refused cause => cause.Distrusts
  | _ => False

/-- A result that is not turned down for distrust of a pool. -/
class Result.Trusting {α : Type} (r : Result α) : Prop where
  trusts : ∀ e, r = .error e → ¬e.Distrusts

/-- A question whose answer is never turned down for distrust of a pool. -/
class View.Trusting {α : Type} (view : View α) : Prop where
  trusts : ∀ c, Result.Trusting (view c)

/-- A call that never fails for distrust of a pool. -/
class Exec.Trusting {α : Type} (m : Exec α) : Prop where
  trusts : ∀ w, Result.Trusting (m.run w)

variable {α β : Type}

namespace Result.Trusting

instance ok (a : α) : Trusting (.ok a) := ⟨fun _ h => by cases h⟩

instance pure (a : α) : Trusting (pure a) := ok a

instance error {e : Fault} [h : IsEmpty e.Distrusts] : Trusting (.error e : Result α) :=
  ⟨fun _ hSame => by cases hSame; exact h.false⟩

instance refuse {r : Refusal} [IsEmpty r.Distrusts] : Trusting (refuse r : Result α) := error

instance bind {r : Result α} {f : α → Result β} [hr : Trusting r] [hf : ∀ a, Trusting (f a)] :
    Trusting (r >>= f) where
  trusts e h := by
    rcases Result.bind_eq_error.1 h with hFirst | ⟨a, -, hRest⟩
    · exact hr.trusts e hFirst
    · exact (hf a).trusts e hRest

instance map {r : Result α} {f : α → β} [hr : Trusting r] : Trusting (f <$> r) where
  trusts e h := hr.trusts e (Result.map_eq_error.1 h)

instance ite {p : Prop} [Decidable p] {r r' : Result α} [Trusting r] [Trusting r'] :
    Trusting (if p then r else r') := by
  split <;> infer_instance

instance ensure {p : Prop} [Decidable p] {r : Refusal} [IsEmpty r.Distrusts] :
    Trusting (ensure p r) := ite

instance known {collaborator : Option α} : Trusting (known collaborator) := by
  cases collaborator
  · exact refuse
  · exact ok _

instance foldlM {f : β → α → Result β} [hf : ∀ b a, Trusting (f b a)] (as : List α) (b : β) :
    Trusting (as.foldlM f b) := by
  induction as generalizing b with
  | nil => exact pure b
  | cons a rest ih =>
    rw [List.foldlM_cons]
    infer_instance

end Result.Trusting

namespace View.Trusting

instance pure (a : α) : Trusting (pure a) := ⟨fun _ => .pure a⟩

instance lift {r : Result α} [Result.Trusting r] : Trusting (liftM r) := ⟨fun _ => ‹_›⟩

instance throw {e : Fault} [IsEmpty e.Distrusts] : Trusting (throw e : View α) := ⟨fun _ => .error⟩

instance bind {view : View α} {f : α → View β} [hv : Trusting view] [hf : ∀ a, Trusting (f a)] :
    Trusting (view >>= f) where
  trusts c :=
    have : Result.Trusting (view c) := hv.trusts c
    have : ∀ a, Result.Trusting (f a c) := fun a => (hf a).trusts c
    Result.Trusting.bind

instance ite {p : Prop} [Decidable p] {v v' : View α} [Trusting v] [Trusting v'] :
    Trusting (if p then v else v') := by
  split <;> infer_instance

instance foldlM {f : β → α → View β} [hf : ∀ b a, Trusting (f b a)] (as : List α) (b : β) :
    Trusting (as.foldlM f b) := by
  induction as generalizing b with
  | nil => exact pure b
  | cons a rest ih =>
    rw [List.foldlM_cons]
    infer_instance

instance mapM {f : α → View β} [hf : ∀ a, Trusting (f a)] (as : List α) :
    Trusting (as.mapM f) := by
  induction as with
  | nil => exact pure []
  | cons a rest ih =>
    rw [List.mapM_cons]
    infer_instance

instance contract (a : Address) : Trusting (View.contract a) where
  trusts c := by
    unfold View.contract
    split <;> infer_instance

instance books {entry : String} (a : Address) : Trusting (View.books entry a) := by
  refine @bind _ _ _ _ (contract a) fun x => ?_
  split <;> infer_instance

instance storage {σ : Type} [Storage σ] {wrong : Fault} [IsEmpty wrong.Distrusts] (a : Address) :
    Trusting (View.storage wrong a : View σ) := by
  refine @bind _ _ _ _ (contract a) fun x => ?_
  split <;> infer_instance

instance callee {σ : Type} [Storage σ] {entry : String} (a : Address) :
    Trusting (View.callee entry a : View σ) := storage a

instance load {σ : Type} [Storage σ] (a : Address) : Trusting (View.load a : View σ) := storage a

end View.Trusting

namespace Exec.Trusting

instance pure (a : α) : Trusting (pure a) := ⟨fun w => .pure (a, w)⟩

instance throw {e : Fault} [IsEmpty e.Distrusts] : Trusting (throw e : Exec α) := ⟨fun _ => .error⟩

instance result {r : Result α} [Result.Trusting r] : Trusting (liftM r) where
  trusts w := by
    rw [run_result]
    infer_instance

instance view {view : View α} [h : View.Trusting view] : Trusting (liftM view) where
  trusts w := by
    have := h.trusts w.chain
    rw [run_view]
    infer_instance

instance emit (self : Address) (event : Event) : Trusting (emit self event) := ⟨fun _ => .ok _⟩

instance mark (m : Mark) : Trusting (mark m) := ⟨fun _ => .ok _⟩

instance put (x : Address) (new : Contract) : Trusting (put x new) := ⟨fun _ => .ok _⟩

instance bind {m : Exec α} {f : α → Exec β} [hm : Trusting m] [hf : ∀ a, Trusting (f a)] :
    Trusting (m >>= f) where
  trusts w := by
    have : Result.Trusting (m.run w) := hm.trusts w
    have : ∀ r : α × World, Result.Trusting ((f r.1).run r.2) := fun r => (hf r.1).trusts r.2
    rw [StateT.run_bind]
    exact Result.Trusting.bind

instance (priority := high) result_bind {r : Result α} {f : α → Exec β} [Result.Trusting r]
    [∀ a, Trusting (f a)] : Trusting ((liftM r : Exec α) >>= f) := bind

instance (priority := high) view_bind {view : View α} {f : α → Exec β} [View.Trusting view]
    [∀ a, Trusting (f a)] : Trusting ((liftM view : Exec α) >>= f) := bind

instance entering {caller callee : Address} {entry : String} {body : Exec α} [Trusting body] :
    Trusting (entering caller callee entry body) := by
  unfold Exec.entering
  infer_instance

variable {σ : Type} [Storage σ] {change : σ → Result σ} [∀ s, Result.Trusting (change s)]

instance update {x : Address} : Trusting (update x change) := by
  unfold Exec.update
  infer_instance

instance amend {caller self : Address} {entry : String} :
    Trusting (amend caller self entry change) := by
  unfold Exec.amend
  infer_instance

end Exec.Trusting

namespace Exec

variable {c : Chain} {m : Exec α} {f : α → Exec β}

/-- From a chain, the call fails for distrust of a pool. -/
def Distrusts (m : Exec α) (c : Chain) : Prop := ∃ e, Fails m c e ∧ e.Distrusts

end Exec

section Results

variable {a b c n : Amount}

namespace Amount

instance trusting_add : Result.Trusting (add a b) := by
  unfold add checked
  infer_instance

instance trusting_sub : Result.Trusting (sub a b) := by
  unfold sub
  infer_instance

instance trusting_mul : Result.Trusting (mul a b) := by
  unfold mul checked
  infer_instance

instance trusting_div : Result.Trusting (div a b) := by
  unfold div
  infer_instance

instance trusting_divCeil : Result.Trusting (divCeil a b) := by
  unfold divCeil
  infer_instance

instance trusting_mulDiv : Result.Trusting (mulDiv a b c) := by
  unfold mulDiv
  infer_instance

instance trusting_mulDivCeil : Result.Trusting (mulDivCeil a b c) := by
  unfold mulDivCeil
  infer_instance

instance trusting_sum {as : List Amount} : Result.Trusting (sum as) := by
  unfold sum
  infer_instance

end Amount

namespace Rate

instance trusting_sharesForDeposit : Result.Trusting (sharesForDeposit a b) := by
  unfold sharesForDeposit
  infer_instance

instance trusting_assetsForShares : Result.Trusting (assetsForShares a b) := by
  unfold assetsForShares
  infer_instance

instance trusting_assetsForMint : Result.Trusting (assetsForMint a b) := by
  unfold assetsForMint
  infer_instance

instance trusting_sharesForAmount : Result.Trusting (sharesForAmount a b) := by
  unfold sharesForAmount
  infer_instance

end Rate

namespace Token

variable {l : Ledger} {owner giver taker spender : Address} {move : Move}

namespace Ledger

instance trusting_transfer : Result.Trusting (l.transfer giver taker n) := by
  unfold transfer debit credit
  infer_instance

instance trusting_spendAllowance : Result.Trusting (l.spendAllowance owner spender n) := by
  unfold spendAllowance
  infer_instance

instance trusting_transferFrom :
    Result.Trusting (l.transferFrom spender owner taker n) := by
  unfold transferFrom
  infer_instance

instance trusting_mint : Result.Trusting (l.mint owner n) := by
  unfold mint credit
  infer_instance

instance trusting_burn : Result.Trusting (l.burn owner n) := by
  unfold burn debit
  infer_instance

end Ledger

namespace Stable

instance trusting_transfer {t : Stable} : Result.Trusting (t.transfer giver taker n) := by
  unfold transfer
  infer_instance

instance trusting_transferFrom {t : Stable} :
    Result.Trusting (t.transferFrom spender owner taker n) := by
  unfold transferFrom
  infer_instance

end Stable

instance trusting_keep {token : Address} {entry : String} {onStable : Stable → Result Stable}
    {onLedger : Ledger → Result Ledger} [∀ t, Result.Trusting (onStable t)]
    [∀ l, Result.Trusting (onLedger l)] :
    Exec.Trusting (keep token entry onStable onLedger) := by
  refine @Exec.Trusting.bind _ _ _ _ _ fun x => ?_
  cases x <;> simp only [Contract.keepBooks] <;> infer_instance

instance trusting_transfer {caller token : Address} :
    Exec.Trusting (transfer caller token taker n) := by
  unfold transfer
  infer_instance

instance trusting_approve {caller token : Address} :
    Exec.Trusting (approve caller token spender n) := by
  unfold approve
  infer_instance

instance trusting_transferFrom {caller token : Address} :
    Exec.Trusting (transferFrom caller token owner taker n) := by
  unfold transferFrom
  infer_instance

instance (priority := high) trusting_approve_bind {β : Type} {f : Unit → Exec β}
    [∀ u, Exec.Trusting (f u)] {caller token : Address} :
    Exec.Trusting (approve caller token spender n >>= f) := .bind

instance trusting_balanceOf {token : Address} : View.Trusting (balanceOf token owner) := by
  unfold balanceOf
  infer_instance

end Token

end Results

namespace Yield

variable {self caller receiver owner : Address} {n : Amount} {entry : String}
  {round : Amount → Amount → Amount → Result Amount}

instance trusting_convert {a b c : Amount} : Result.Trusting (convert a b c) := by
  unfold convert
  infer_instance

instance trusting_convertCeil {a b c : Amount} : Result.Trusting (convertCeil a b c) := by
  unfold convertCeil
  infer_instance

instance trusting_totalAssets : View.Trusting (totalAssets self) := by
  unfold totalAssets
  infer_instance

instance trusting_assetsFor [∀ a b c, Result.Trusting (round a b c)] :
    View.Trusting (assetsFor round entry self n) := by
  unfold assetsFor
  infer_instance

instance trusting_sharesFor [∀ a b c, Result.Trusting (round a b c)] :
    View.Trusting (sharesFor round entry self n) := by
  unfold sharesFor
  infer_instance

instance trusting_convertToAssets : View.Trusting (convertToAssets self n) := trusting_assetsFor

instance trusting_previewDeposit : View.Trusting (previewDeposit self n) := trusting_sharesFor

instance trusting_previewRedeem : View.Trusting (previewRedeem self n) := trusting_assetsFor

instance trusting_previewMint : View.Trusting (previewMint self n) := trusting_assetsFor

instance trusting_previewWithdraw : View.Trusting (previewWithdraw self n) := trusting_sharesFor

instance trusting_deposit : Exec.Trusting (deposit self caller n receiver) := by
  unfold deposit
  infer_instance

instance trusting_redeem : Exec.Trusting (redeem self caller n receiver owner) := by
  unfold redeem
  infer_instance

end Yield

namespace Strategy

variable {adapter self caller pool : Address} {n : Amount}

instance trusting_quoteShares {s : Synthetic} : Result.Trusting (s.quoteShares n) := by
  unfold Synthetic.quoteShares
  infer_instance

instance trusting_requireHealthy {s : Synthetic} : Result.Trusting s.requireHealthy := by
  unfold Synthetic.requireHealthy
  infer_instance

instance trusting_previewDeposit : View.Trusting (previewDeposit adapter n) := by
  refine @View.Trusting.bind _ _ _ _ _ fun x => ?_
  split <;> infer_instance

instance trusting_previewWithdraw : View.Trusting (previewWithdraw adapter n) := by
  refine @View.Trusting.bind _ _ _ _ _ fun x => ?_
  split <;> infer_instance

instance trusting_previewShares : View.Trusting (previewShares adapter n) := by
  refine @View.Trusting.bind _ _ _ _ _ fun x => ?_
  split <;> infer_instance

instance trusting_previewMint : View.Trusting (previewMint adapter n) := by
  refine @View.Trusting.bind _ _ _ _ _ fun x => ?_
  split <;> infer_instance

instance trusting_valueOf : View.Trusting (valueOf adapter pool n) := by
  refine @View.Trusting.bind _ _ _ _ _ fun x => ?_
  split <;> infer_instance

instance trusting_takeShares {l : Token.Ledger} :
    Result.Trusting (takeShares self caller n l) := by
  unfold takeShares
  infer_instance

set_option synthInstance.maxSize 256 in
instance FixedRate.trusting_deposit {s : FixedRate} :
    Exec.Trusting (s.deposit self caller n) := by
  unfold FixedRate.deposit
  infer_instance

instance Wrapped.trusting_deposit {s : Wrapped} : Exec.Trusting (s.deposit self caller n) := by
  unfold Wrapped.deposit
  infer_instance

instance FixedRate.trusting_withdraw {s : FixedRate} :
    Exec.Trusting (s.withdraw self caller n) := by
  unfold FixedRate.withdraw
  infer_instance

instance Wrapped.trusting_withdraw {s : Wrapped} : Exec.Trusting (s.withdraw self caller n) := by
  unfold Wrapped.withdraw
  infer_instance

end Strategy

namespace Custody

variable {self caller pool recipient : Address} {n : Amount}

instance trusting_poolBalance : View.Trusting (poolBalance self pool) := by
  unfold poolBalance
  infer_instance

instance trusting_valueOf {q : Custody} : View.Trusting (q.valueOf pool n) := by
  unfold Custody.valueOf
  split <;> infer_instance

instance trusting_held {q : Custody} : View.Trusting (held q self pool) := by
  unfold held
  infer_instance

instance trusting_totalValue : View.Trusting (totalValue self) := by
  unfold totalValue
  infer_instance

instance trusting_transferShares :
    Exec.Trusting (transferShares self caller pool n recipient) := by
  unfold transferShares requireRouter
  infer_instance

end Custody

namespace Router

variable {self owner : Address} {n : Amount} {f : Frame}

instance trusting_idleBalance : View.Trusting (idleBalance self) := by
  unfold idleBalance
  infer_instance

instance trusting_totalManagedAssets : View.Trusting (totalManagedAssets self) := by
  unfold totalManagedAssets
  infer_instance

instance trusting_tokenBacking : View.Trusting (tokenBacking self) := by
  unfold tokenBacking
  infer_instance

instance trusting_requireWithinCap : View.Trusting (requireWithinCap f n) := by
  unfold requireWithinCap
  infer_instance

instance trusting_pullStable : Exec.Trusting (pullStable f owner n) := by
  unfold pullStable
  infer_instance

instance trusting_require {direction : Direction} {status : Pool.Status} :
    Result.Trusting (direction.require status) := by
  unfold Direction.require
  split <;> infer_instance

instance trusting_registryRequire {registry : Pool.Registry} {pool : Address} :
    Result.Trusting (registry.require pool) := by
  unfold Pool.Registry.require
  split <;> infer_instance

instance trusting_resolve {registry : Pool.Registry} {direction : Direction} {seen : List Address}
    {legs : List Pool.Leg} : Result.Trusting (resolve registry direction seen legs) := by
  induction legs generalizing seen with
  | nil => exact .pure []
  | cons leg rest ih =>
    unfold resolve
    infer_instance

instance trusting_resolveAll {registry : Pool.Registry} {direction : Direction}
    {legs : List Pool.Leg} : Result.Trusting (resolveAll registry direction legs) := by
  unfold resolveAll
  infer_instance

instance trusting_purchasesOfShares {parts : List Part} :
    View.Trusting (purchasesOfShares parts) := by
  unfold purchasesOfShares
  infer_instance

end Router

namespace ShareToken

variable {self caller receiver : Address} {n : Amount}

instance trusting_sharesFor {t : ShareToken} : View.Trusting (t.sharesFor n) := by
  have : View.Trusting t.backing := by
    unfold backing
    split <;> infer_instance
  unfold ShareToken.sharesFor
  infer_instance

instance trusting_previewDeposit : View.Trusting (previewDeposit self n) := by
  refine @View.Trusting.bind _ _ _ _ _ fun x => ?_
  split <;> infer_instance

instance trusting_mintFor : Exec.Trusting (mintFor self caller receiver n) := by
  unfold mintFor issue requireRouter
  infer_instance

end ShareToken

end Treasury
