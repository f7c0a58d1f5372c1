/-! Why a call stops. A `Refusal` is a cause stated by a contract, with a code and a message for
clients. A `Fault` is anything that ends a call: a refusal, an amount out of range, or a call that
the chain itself turns down. Every fault undoes the whole outermost call. -/
namespace Treasury

/-- A cause for which a contract turns a call down. -/
inductive Refusal where
  | zeroAmount
  | emptyLegs
  | duplicatePool
  | lengthMismatch
  | indexOutOfRange
  | unauthorized
  | unauthorizedRouter
  | unauthorizedToken
  | paused
  | notPaused
  | poolNotFound
  | poolAlreadyExists
  | invalidTotalWeight
  | maxPoolCountExceeded
  | adapterPoolMismatch
  | adapterNotRegistered
  | adapterStillRegistered
  | poolNotSupported
  | invalidStatusTransition
  | poolNotDepositEligible
  | poolNotWithdrawalEligible
  | poolNotWoundDown
  | invalidConfig
  | valueAboveMaximum
  | defaultPoolNotSet
  | invalidPool
  | notInitialized
  | slippageExceeded
  | sharesMismatch
  | amountMismatch
  | depositCapExceeded
  | shortfallExceedsAssets
  | netBelowMinimum
  | sharesAboveMaximum
  | sharesBelowMinimum
  | rebalanceDrift
  | balanceAboveDust
  | roundingMismatch
  | poolMismatch
  | liquidityExhausted
  | insufficientLiquidity
  | insufficientBalance
  | insufficientAllowance
  | poolUnhealthy
  | probeFailed
deriving DecidableEq, Repr, Inhabited

namespace Refusal

/-- Every cause, by ascending code. -/
def all : List Refusal :=
  [zeroAmount, emptyLegs, duplicatePool, lengthMismatch, indexOutOfRange,
    unauthorized, unauthorizedRouter, unauthorizedToken, paused, notPaused,
    poolNotFound, poolAlreadyExists, invalidTotalWeight, maxPoolCountExceeded,
    adapterPoolMismatch, adapterNotRegistered, adapterStillRegistered, poolNotSupported,
    invalidStatusTransition, poolNotDepositEligible, poolNotWithdrawalEligible, poolNotWoundDown,
    invalidConfig, valueAboveMaximum, defaultPoolNotSet, invalidPool, notInitialized,
    slippageExceeded, sharesMismatch, amountMismatch, depositCapExceeded, shortfallExceedsAssets,
    netBelowMinimum, sharesAboveMaximum, sharesBelowMinimum, rebalanceDrift, balanceAboveDust,
    roundingMismatch, poolMismatch, liquidityExhausted, insufficientLiquidity,
    insufficientBalance, insufficientAllowance, poolUnhealthy, probeFailed]

/-- The number of a cause. The hundreds tell its family: input, authorization, configuration,
economics, liquidity, probes. -/
def code : Refusal → Nat
  | zeroAmount => 100
  | emptyLegs => 102
  | duplicatePool => 103
  | lengthMismatch => 104
  | indexOutOfRange => 105
  | unauthorized => 200
  | unauthorizedRouter => 201
  | unauthorizedToken => 202
  | paused => 203
  | notPaused => 204
  | poolNotFound => 300
  | poolAlreadyExists => 301
  | invalidTotalWeight => 302
  | maxPoolCountExceeded => 303
  | adapterPoolMismatch => 304
  | adapterNotRegistered => 305
  | adapterStillRegistered => 306
  | poolNotSupported => 307
  | invalidStatusTransition => 308
  | poolNotDepositEligible => 309
  | poolNotWithdrawalEligible => 310
  | poolNotWoundDown => 311
  | invalidConfig => 312
  | valueAboveMaximum => 313
  | defaultPoolNotSet => 314
  | invalidPool => 315
  | notInitialized => 316
  | slippageExceeded => 400
  | sharesMismatch => 401
  | amountMismatch => 402
  | depositCapExceeded => 403
  | shortfallExceedsAssets => 404
  | netBelowMinimum => 405
  | sharesAboveMaximum => 406
  | sharesBelowMinimum => 407
  | rebalanceDrift => 408
  | balanceAboveDust => 409
  | roundingMismatch => 410
  | poolMismatch => 411
  | liquidityExhausted => 500
  | insufficientLiquidity => 501
  | insufficientBalance => 502
  | insufficientAllowance => 503
  | poolUnhealthy => 600
  | probeFailed => 601

/-- The short name under which clients know a cause. -/
def label : Refusal → String
  | zeroAmount => "ZeroAmount"
  | emptyLegs => "EmptyLegs"
  | duplicatePool => "DuplicatePool"
  | lengthMismatch => "LengthMismatch"
  | indexOutOfRange => "IndexOutOfRange"
  | unauthorized => "Unauthorized"
  | unauthorizedRouter => "UnauthorizedRouter"
  | unauthorizedToken => "UnauthorizedToken"
  | paused => "Paused"
  | notPaused => "NotPaused"
  | poolNotFound => "PoolNotFound"
  | poolAlreadyExists => "PoolAlreadyExists"
  | invalidTotalWeight => "InvalidTotalWeight"
  | maxPoolCountExceeded => "MaxPoolCountExceeded"
  | adapterPoolMismatch => "AdapterPoolMismatch"
  | adapterNotRegistered => "AdapterNotRegistered"
  | adapterStillRegistered => "AdapterStillRegistered"
  | poolNotSupported => "PoolNotSupported"
  | invalidStatusTransition => "InvalidStatusTransition"
  | poolNotDepositEligible => "PoolNotDepositEligible"
  | poolNotWithdrawalEligible => "PoolNotWithdrawalEligible"
  | poolNotWoundDown => "PoolNotWoundDown"
  | invalidConfig => "InvalidConfig"
  | valueAboveMaximum => "ValueAboveMaximum"
  | defaultPoolNotSet => "DefaultPoolNotSet"
  | invalidPool => "InvalidPool"
  | notInitialized => "NotInitialized"
  | slippageExceeded => "SlippageExceeded"
  | sharesMismatch => "SharesMismatch"
  | amountMismatch => "AmountMismatch"
  | depositCapExceeded => "DepositCapExceeded"
  | shortfallExceedsAssets => "ShortfallExceedsAssets"
  | netBelowMinimum => "NetBelowMinimum"
  | sharesAboveMaximum => "SharesAboveMaximum"
  | sharesBelowMinimum => "SharesBelowMinimum"
  | rebalanceDrift => "RebalanceDrift"
  | balanceAboveDust => "BalanceAboveDust"
  | roundingMismatch => "RoundingMismatch"
  | poolMismatch => "PoolMismatch"
  | liquidityExhausted => "LiquidityExhausted"
  | insufficientLiquidity => "InsufficientLiquidity"
  | insufficientBalance => "InsufficientBalance"
  | insufficientAllowance => "InsufficientAllowance"
  | poolUnhealthy => "PoolUnhealthy"
  | probeFailed => "ProbeFailed"

/-- The sentence shown to a client. -/
def message : Refusal → String
  | zeroAmount => "Amount must be nonzero"
  | emptyLegs => "Solver call has no legs"
  | duplicatePool => "Pool listed more than once"
  | lengthMismatch => "Input lengths do not match"
  | indexOutOfRange => "Index out of range"
  | unauthorized => "Unauthorized: caller lacks the required role"
  | unauthorizedRouter => "Unauthorized: caller is not the router"
  | unauthorizedToken => "Unauthorized: caller is not the share token"
  | paused => "Operation blocked: allocator paused"
  | notPaused => "Allocator is not paused"
  | poolNotFound => "Pool not found"
  | poolAlreadyExists => "Pool already exists"
  | invalidTotalWeight => "Target weights must sum to 1_000_000"
  | maxPoolCountExceeded => "Pool count exceeds maximum"
  | adapterPoolMismatch => "Adapter reports a different pool"
  | adapterNotRegistered => "No adapter registered for pool"
  | adapterStillRegistered => "Adapter still registered for pool"
  | poolNotSupported => "Pool not supported by collateral vault"
  | invalidStatusTransition => "Invalid pool status transition"
  | poolNotDepositEligible => "Pool not eligible for deposits"
  | poolNotWithdrawalEligible => "Pool not eligible for withdrawals"
  | poolNotWoundDown => "Pool must be suspended with zero target"
  | invalidConfig => "Invalid configuration parameter"
  | valueAboveMaximum => "Value above hard maximum"
  | defaultPoolNotSet => "Default pool not set"
  | invalidPool => "Pool id does not belong to this adapter"
  | notInitialized => "Collaborator address not configured"
  | slippageExceeded => "Result below preview"
  | sharesMismatch => "Reported shares differ from measured balance delta"
  | amountMismatch => "Reported amount differs from measured balance delta"
  | depositCapExceeded => "Deposit cap exceeded"
  | shortfallExceedsAssets => "Shortfall would exceed managed assets"
  | netBelowMinimum => "Net assets below expected minimum"
  | sharesAboveMaximum => "Shares burned above caller maximum"
  | sharesBelowMinimum => "Shares minted below caller minimum"
  | rebalanceDrift => "Rebalance value drift above dust tolerance"
  | balanceAboveDust => "Pool balance above dust"
  | roundingMismatch => "Per-leg previews do not reconcile with net amount"
  | poolMismatch => "Adapter returned an unexpected pool"
  | liquidityExhausted => "No eligible pool can satisfy the withdrawal"
  | insufficientLiquidity => "Insufficient liquidity in strategy"
  | insufficientBalance => "Insufficient token balance"
  | insufficientAllowance => "Insufficient allowance"
  | poolUnhealthy => "Pool failed health probe"
  | probeFailed => "Pool probe returned no usable value"

/-- The cause with a given code, if some cause has it. -/
def ofCode? (n : Nat) : Option Refusal := all.find? (fun r => r.code == n)

end Refusal

/-- What ends a call before its result. -/
inductive Fault where
  /-- A contract turned the call down. -/
  | refused (cause : Refusal)
  /-- An amount left the range of 256 bits. -/
  | overflow
  /-- An amount was divided by zero. -/
  | divisionByZero
  /-- A guarded contract was entered while one of its guarded entry points was running. -/
  | reentrantCall
  /-- The callee is not the address of a contract. -/
  | invalidContractAddress
  /-- A constructor was called on a contract that has been constructed. -/
  | invalidContext
  /-- The callee has no entry point of this name. -/
  | noSuchMethod (entry : String)
  /-- Calls were nested deeper than there are contracts to nest them in. -/
  | callDepthExceeded
deriving DecidableEq, Repr, Inhabited

/-- A computation that ends with a value or with a fault. -/
abbrev Result := Except Fault

/-- Go on only if `p` holds, else stop for the cause `r`. -/
def ensure (p : Prop) [Decidable p] (r : Refusal) : Result Unit :=
  if p then .ok () else .error (.refused r)

/-- Stop for the cause `r`. -/
def refuse {α : Type} (r : Refusal) : Result α := .error (.refused r)

/-- A collaborator's address, or the refusal of a contract that was never told it. -/
def known {α : Type} (collaborator : Option α) : Result α :=
  match collaborator with
  | some a => .ok a
  | none => refuse .notInitialized

@[simp] theorem ensure_eq_ok {p : Prop} [Decidable p] {r : Refusal} {u : Unit} :
    ensure p r = .ok u ↔ p := by
  by_cases h : p <;> simp [ensure, h]

@[simp] theorem ensure_eq_error {p : Prop} [Decidable p] {r : Refusal} {f : Fault} :
    ensure p r = .error f ↔ ¬p ∧ f = .refused r := by
  by_cases h : p <;> simp [ensure, h, eq_comm]

@[simp] theorem known_eq_ok {α : Type} {collaborator : Option α} {a : α} :
    known collaborator = .ok a ↔ collaborator = some a := by
  cases collaborator <;> simp [known, refuse]

namespace Result

variable {α β : Type}

/-- A sequence ends with a value if both of its parts do. -/
theorem bind_eq_ok {x : Result α} {f : α → Result β} {b : β} :
    (x >>= f) = .ok b ↔ ∃ a, x = .ok a ∧ f a = .ok b := by
  cases x <;> simp [bind, Except.bind]

/-- A sequence ends with a fault if its first part does, or else if its second part does. -/
theorem bind_eq_error {x : Result α} {f : α → Result β} {e : Fault} :
    (x >>= f) = .error e ↔ x = .error e ∨ ∃ a, x = .ok a ∧ f a = .error e := by
  cases x <;> simp [bind, Except.bind]

theorem map_eq_ok {x : Result α} {f : α → β} {b : β} :
    (f <$> x) = .ok b ↔ ∃ a, x = .ok a ∧ f a = b := by
  cases x <;> simp [Functor.map, Except.map]

end Result

end Treasury
