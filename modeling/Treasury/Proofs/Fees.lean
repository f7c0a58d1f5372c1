import Mathlib.Algebra.Order.BigOperators.Group.List
import Mathlib.Algebra.Order.Group.Nat
import Mathlib.Data.List.Forall2
import Treasury.Fee
import Treasury.Proofs.Rounding

/-! How fees divide amounts. Net and fee make up the gross amount, and the fee is its part at the
rate, rounded down. So a larger amount never pays less in fees, nor leaves less, and an amount that
is taken out in pieces saves less than one unit of fees for each piece. -/
namespace Treasury.Fee

variable {gross larger rate : Amount} {s s' : Split}

theorem weightScale_pos : 0 < weightScale := by decide

/-- What an amount is split into, as numbers without a bound. -/
def cut (gross rate : Nat) : Split :=
  ⟨gross - gross * rate / weightScale, gross * rate / weightScale⟩

/-- An amount is split if its product with the rate is in range, and its fee no more than itself. -/
theorem split_eq_ok : split gross rate = .ok s ↔
    gross * rate < Amount.bound ∧ gross * rate / weightScale ≤ gross ∧ cut gross rate = s := by
  have hScale : weightScale ≠ 0 := by decide
  simp only [split, part, Result.bind_eq_ok, Amount.mulDiv_eq_ok, Amount.sub_eq_ok,
    and_iff_right hScale, and_assoc, exists_and_left, exists_eq_left']
  exact and_congr_right fun _ => and_congr_right fun _ => ⟨Except.ok.inj, congrArg Except.ok⟩

/-- Net and fee make up the gross amount. -/
theorem split_spec (h : split gross rate = .ok s) :
    s.net + s.fee = gross ∧ s.fee = gross * rate / weightScale := by
  obtain ⟨-, hRoom, rfl⟩ := split_eq_ok.1 h
  exact ⟨Nat.sub_add_cancel hRoom, rfl⟩

theorem net_le (h : split gross rate = .ok s) : s.net ≤ gross := by
  rw [← (split_spec h).1]
  exact Nat.le_add_right _ _

/-- No rate that may be set takes all of an amount. -/
theorem net_ne_zero (h : split gross rate = .ok s) (hGross : gross ≠ 0)
    (hRate : rate ≤ maxWithdrawalFee) : s.net ≠ 0 := by
  obtain ⟨hSum, hFee⟩ := split_spec h
  have hLess : gross * rate / weightScale < gross := by
    apply Nat.div_lt_of_lt_mul
    rw [Nat.mul_comm]
    refine Nat.mul_lt_mul_of_pos_right ?_ (Nat.pos_of_ne_zero hGross)
    exact Nat.lt_of_le_of_lt hRate (by decide)
  intro hNone
  rw [hNone, Nat.zero_add, hFee] at hSum
  exact absurd hSum (Nat.ne_of_lt hLess)

/-- At a rate of no more than the whole, an amount whose product with it is in range is split. -/
theorem split_of_range (hRate : rate ≤ weightScale) (hRange : gross * rate < Amount.bound) :
    split gross rate = .ok (cut gross rate) := by
  refine split_eq_ok.2 ⟨hRange, ?_, rfl⟩
  apply Nat.div_le_of_le_mul
  rw [Nat.mul_comm]
  exact Nat.mul_le_mul_right _ hRate

/-- At an allowed fee, the net amount and the fee can be found out. -/
theorem split_ok (hFee : rate ≤ maxWithdrawalFee) (hRange : gross * rate < Amount.bound) :
    split gross rate = .ok ⟨gross - gross * rate / weightScale, gross * rate / weightScale⟩ :=
  split_of_range (Nat.le_trans hFee (by decide)) hRange

/-- A larger amount pays no less in fees, and not more by a larger difference. So its net amount is
no less either, and not more by a larger difference. -/
theorem net_between (hRate : rate ≤ weightScale) (hLe : gross ≤ larger)
    (h : split gross rate = .ok s) (h' : split larger rate = .ok s') :
    s.net ≤ s'.net ∧ s'.net ≤ s.net + (larger - gross) := by
  obtain ⟨hSum, hFee⟩ := split_spec h
  obtain ⟨hSum', hFee'⟩ := split_spec h'
  have hMore : s.fee ≤ s'.fee := by
    rw [hFee, hFee']
    exact Nat.div_le_div_right (Nat.mul_le_mul_right rate hLe)
  have hGain : s'.fee ≤ s.fee + (larger - gross) := by
    have hStep := Amount.quotient_gain_le weightScale_pos gross
      (Nat.mul_le_mul_left (larger - gross) hRate)
    rwa [Nat.add_sub_cancel' hLe, ← hFee, ← hFee'] at hStep
  constructor
  · apply Nat.le_of_add_le_add_right (b := s'.fee)
    calc s.net + s'.fee ≤ s.net + (s.fee + (larger - gross)) := Nat.add_le_add_left hGain _
      _ = larger := by rw [← Nat.add_assoc, hSum, Nat.add_sub_cancel' hLe]
      _ = s'.net + s'.fee := hSum'.symm
  · apply Nat.le_of_add_le_add_right (b := s.fee)
    calc s'.net + s.fee ≤ s'.net + s'.fee := Nat.add_le_add_left hMore _
      _ = gross + (larger - gross) := by rw [hSum', Nat.add_sub_cancel' hLe]
      _ = s.net + (larger - gross) + s.fee := by rw [Nat.add_right_comm, hSum]

/-- The pieces of a withdrawal are split one by one, and so is the whole of them. -/
structure Piecewise (rate : Amount) (pieces : List Amount) (splits : List Split) (whole : Split) :
    Prop where
  each : List.Forall₂ (fun gross s => split gross rate = .ok s ∧ s.net + s.fee = gross)
    pieces splits
  total : split pieces.sum rate = .ok whole ∧ whole.net + whole.fee = pieces.sum
  fees_le : (splits.map Split.fee).sum ≤ whole.fee
  /-- Each piece saves less than one unit. -/
  lt_fees : whole.fee < (splits.map Split.fee).sum + pieces.length

theorem piecewise_cut {pieces : List Amount} (hRate : rate ≤ weightScale) (hSome : pieces ≠ [])
    (hRange : pieces.sum * rate < Amount.bound) :
    Piecewise rate pieces (pieces.map (cut · rate)) (cut pieces.sum rate) := by
  have hFees : (pieces.map (cut · rate)).map Split.fee =
      pieces.map fun gross => gross * rate / weightScale := List.map_map
  have hTotal := split_of_range hRate hRange
  constructor
  case each =>
    rw [List.forall₂_map_right_iff, List.forall₂_same]
    intro gross hGross
    have hLess := Nat.mul_le_mul_right rate (List.le_sum_of_mem hGross)
    have hSplit := split_of_range hRate (Nat.lt_of_le_of_lt hLess hRange)
    exact ⟨hSplit, (split_spec hSplit).1⟩
  case total => exact ⟨hTotal, (split_spec hTotal).1⟩
  case fees_le =>
    rw [hFees]
    exact Amount.sum_quotients_le pieces rate weightScale_pos
  case lt_fees =>
    rw [hFees]
    exact Amount.quotient_sum_lt hSome rate weightScale_pos

/-- At a rate of no more than the whole, taking an amount out in pieces saves less than one unit of
fees for each piece. Of two amounts, the larger one leaves no less after its fee, and not more by a
larger difference. -/
theorem fees_of_pieces (hRate : rate ≤ weightScale) :
    (∀ pieces : List Amount, pieces ≠ [] → pieces.sum * rate < Amount.bound →
      ∃ splits whole, Piecewise rate pieces splits whole) ∧
    ∀ gross larger, gross ≤ larger → larger * rate < Amount.bound →
      ∃ s s', split gross rate = .ok s ∧ split larger rate = .ok s' ∧
        s.net ≤ s'.net ∧ s'.net ≤ s.net + (larger - gross) := by
  constructor
  · intro pieces hSome hRange
    exact ⟨_, _, piecewise_cut hRate hSome hRange⟩
  · intro gross larger hLe hRange
    have hLess := Nat.mul_le_mul_right rate hLe
    have hSplit := split_of_range hRate (Nat.lt_of_le_of_lt hLess hRange)
    have hSplit' := split_of_range hRate hRange
    exact ⟨_, _, hSplit, hSplit', net_between hRate hLe hSplit hSplit'⟩

/-- At a rate of 350, three pieces of 2857 pay no fee, and the whole of them pays two units. One
unit more than a piece pays a fee of one, and leaves the same. -/
theorem fees_of_pieces_of_three :
    350 ≤ weightScale ∧ [2857, 2857, 2857].sum * 350 < Amount.bound ∧
      Piecewise 350 [2857, 2857, 2857] [⟨2857, 0⟩, ⟨2857, 0⟩, ⟨2857, 0⟩] ⟨8569, 2⟩ ∧
      2858 * 350 < Amount.bound ∧
      split 2857 350 = .ok ⟨2857, 0⟩ ∧ split 2858 350 = .ok ⟨2857, 1⟩ ∧
      2857 ≤ 2857 ∧ 2857 ≤ 2857 + (2858 - 2857) := by
  have hRate : 350 ≤ weightScale := by decide
  have hRange : [2857, 2857, 2857].sum * 350 < Amount.bound := by decide
  have hRange' : 2858 * 350 < Amount.bound := by decide
  have hPiece : split 2857 350 = .ok ⟨2857, 0⟩ := split_eq_ok.2 (by decide)
  have hMore : split 2858 350 = .ok ⟨2857, 1⟩ := split_eq_ok.2 (by decide)
  have hWhole : split [2857, 2857, 2857].sum 350 = .ok ⟨8569, 2⟩ := split_eq_ok.2 (by decide)
  obtain ⟨hPieces, hAmounts⟩ := fees_of_pieces hRate
  obtain ⟨splits, whole, hSplits⟩ := hPieces _ (List.cons_ne_nil _ _) hRange
  cases hWhole.symm.trans hSplits.total.1
  have hEach : splits = [⟨2857, 0⟩, ⟨2857, 0⟩, ⟨2857, 0⟩] := by
    obtain _ | ⟨hFirst, _ | ⟨hSecond, _ | ⟨hThird, ⟨⟩⟩⟩⟩ := hSplits.each
    cases hPiece.symm.trans hFirst.1
    cases hPiece.symm.trans hSecond.1
    cases hPiece.symm.trans hThird.1
    rfl
  obtain ⟨_, _, hPiece', hMore', hLe, hGain⟩ := hAmounts 2857 2858 (by decide) hRange'
  cases hPiece.symm.trans hPiece'
  cases hMore.symm.trans hMore'
  exact ⟨hRate, hRange, hEach ▸ hSplits, hRange', hPiece, hMore, hLe, hGain⟩

end Treasury.Fee
