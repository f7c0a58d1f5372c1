import Treasury.Fault

/-! Token amounts. Amounts are natural numbers below `2 ^ 256`; an operation whose exact result
leaves that range is a fault, and no intermediate result is kept in a wider range. Division rounds
down. -/
namespace Treasury

/-- A count of the smallest units of a token. -/
abbrev Amount := Nat

namespace Amount

/-- The first number that is too large to be an amount. -/
def bound : Nat := Nat.pow 2 256

/-- The number itself, if it is in range. -/
def checked (n : Nat) : Result Amount := if n < bound then .ok n else .error .overflow

/-- The sum, if it is in range. -/
def add (a b : Amount) : Result Amount := checked (a + b)

/-- The difference, if it is not negative. -/
def sub (a b : Amount) : Result Amount := if b ≤ a then .ok (a - b) else .error .overflow

/-- The product, if it is in range. -/
def mul (a b : Amount) : Result Amount := checked (a * b)

/-- The quotient, rounded down. -/
def div (a b : Amount) : Result Amount := if b = 0 then .error .divisionByZero else .ok (a / b)

/-- The quotient, rounded up. A zero dividend gives zero for every divisor, zero included. -/
def divCeil (a b : Amount) : Result Amount :=
  if a = 0 then .ok 0 else do add (← div (a - 1) b) 1

/-- `a * b / c`, rounded down. The product has to be in range by itself. -/
def mulDiv (a b c : Amount) : Result Amount := do div (← mul a b) c

/-- `a * b / c`, rounded up. The product has to be in range by itself. -/
def mulDivCeil (a b c : Amount) : Result Amount := do divCeil (← mul a b) c

/-- The sum of a list, added from the left. -/
def sum (as : List Amount) : Result Amount := as.foldlM add 0

variable {a b c n m : Amount}

@[simp] theorem checked_eq_ok : checked n = .ok m ↔ n < bound ∧ n = m := by
  by_cases h : n < bound <;> simp [checked, h]

@[simp] theorem add_eq_ok : add a b = .ok c ↔ a + b < bound ∧ a + b = c := checked_eq_ok

@[simp] theorem mul_eq_ok : mul a b = .ok c ↔ a * b < bound ∧ a * b = c := checked_eq_ok

@[simp] theorem sub_eq_ok : sub a b = .ok c ↔ b ≤ a ∧ a - b = c := by
  by_cases h : b ≤ a <;> simp [sub, h]

@[simp] theorem div_eq_ok : div a b = .ok c ↔ b ≠ 0 ∧ a / b = c := by
  by_cases h : b = 0 <;> simp [div, h]

@[simp] theorem mulDiv_eq_ok : mulDiv a b c = .ok n ↔ a * b < bound ∧ c ≠ 0 ∧ a * b / c = n := by
  simp only [mulDiv, Result.bind_eq_ok, mul_eq_ok, div_eq_ok]
  exact ⟨fun ⟨_, ⟨hm, rfl⟩, hd⟩ => ⟨hm, hd⟩, fun ⟨hm, hd⟩ => ⟨_, ⟨hm, rfl⟩, hd⟩⟩

@[simp] theorem divCeil_zero : divCeil 0 b = .ok 0 := rfl

/-- Above zero, rounding up is rounding down the dividend before, plus one. -/
theorem divCeil_eq_ok (h : a ≠ 0) :
    divCeil a b = .ok c ↔ b ≠ 0 ∧ (a - 1) / b + 1 < bound ∧ (a - 1) / b + 1 = c := by
  simp only [divCeil, h, if_false, Result.bind_eq_ok, div_eq_ok, add_eq_ok]
  exact ⟨fun ⟨_, ⟨hb, rfl⟩, ha⟩ => ⟨hb, ha⟩, fun ⟨hb, ha⟩ => ⟨_, ⟨hb, rfl⟩, ha⟩⟩

end Amount

end Treasury
