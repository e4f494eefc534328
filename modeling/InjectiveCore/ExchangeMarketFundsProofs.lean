import InjectiveCore.ExchangeFeesProofs

/-!
# Market funds — the balance of a market and its insurance fund

Every derivative market has a **market balance**, a signed decimal in chain format that
stands for the coins its positions may be paid from, and an **insurance fund** of the
insurance module with an integer balance (`keeper/derivative/market.go`,
`insurance/keeper/insurance.go`). A deficit is first drawn from the fund: the amount is
rounded up to whole coins and cut at the fund's balance.

One number describes a draw, `withdrawn`. What is left of the deficit, what the market
balance gains and what the fund loses are all read off it (`payDeficit_spec`), so that no
later argument looks at the branches again.
-/

namespace ExchangeMarketFunds

open DecArith

variable {D : Type} [DecArith D]

/-- The errors of the insurance module that a draw can meet. -/
inductive InsuranceError where
  | insuranceFundNotFound
  | payoutTooLarge
  | bankSendFailed
  deriving DecidableEq, Repr

/-- The funds behind a market. `insuranceFund` is `none` when the market has no fund. -/
structure MarketFunds (D : Type) where
  marketBalance : D
  insuranceFund : Option ℤ
  deriving DecidableEq, Repr

namespace MarketFunds

/-- `IncrementMarketBalance`. -/
def incrementMarketBalance (m : MarketFunds D) (amount : D) : MarketFunds D :=
  { m with marketBalance := m.marketBalance + amount }

/-- `GetInsuranceFundBalance`: zero when there is no fund. -/
def getInsuranceFundBalance (m : MarketFunds D) : ℤ := m.insuranceFund.getD 0

/-- `WithdrawFromInsuranceFund`. The bank decides with `bankSend` whether the coins move
    from the insurance module to the exchange module. -/
def withdrawFromInsuranceFund (m : MarketFunds D) (bankSend : Bool) (amount : ℤ) :
    Except InsuranceError (MarketFunds D) :=
  match m.insuranceFund with
  | none => .error .insuranceFundNotFound
  | some balance =>
    if balance < amount then .error .payoutTooLarge
    else if bankSend then .ok { m with insuranceFund := some (balance - amount) }
    else .error .bankSendFailed

/-- `MoveCoinsIntoInsuranceFund`, with `DepositIntoInsuranceFund` for the bookkeeping.
    The market balance is left to the caller. -/
def moveCoinsIntoInsuranceFund (m : MarketFunds D) (bankSend : Bool)
    (insuranceFundPaymentAmount : ℤ) : Except InsuranceError (MarketFunds D) :=
  match m.insuranceFund with
  | none => .error .insuranceFundNotFound
  | some balance =>
    if bankSend then
      .ok { m with insuranceFund := some (balance + insuranceFundPaymentAmount) }
    else .error .bankSendFailed

/-- What `PayDeficitFromInsuranceFund` returns, with the funds it leaves. -/
structure DeficitPayment (D : Type) where
  funds : MarketFunds D
  remainingAbsoluteDeficitAmount : D
  err : Option InsuranceError
  deriving DecidableEq, Repr

/-- `PayDeficitFromInsuranceFund`, on an amount in chain format. -/
def payDeficitFromInsuranceFund (m : MarketFunds D) (bankSend : Bool)
    (absoluteDeficitAmount : D) : DeficitPayment D :=
  if absoluteDeficitAmount = 0 then
    { funds := m, remainingAbsoluteDeficitAmount := 0, err := none }
  else
    match m.insuranceFund with
    | none =>
      { funds := m, remainingAbsoluteDeficitAmount := absoluteDeficitAmount
        err := some .insuranceFundNotFound }
    | some balance =>
      let withdrawalAmount :=
        if balance < ceilInt absoluteDeficitAmount then balance
        else ceilInt absoluteDeficitAmount
      match m.withdrawFromInsuranceFund bankSend withdrawalAmount with
      | .error e =>
        { funds := m, remainingAbsoluteDeficitAmount := absoluteDeficitAmount
          err := some e }
      | .ok m' =>
        { funds := m'.incrementMarketBalance (newDec withdrawalAmount)
          remainingAbsoluteDeficitAmount :=
            absoluteDeficitAmount - newDec withdrawalAmount
          err := none }

/-! ## A draw in one number -/

/-- The coins a draw really takes out of the fund. -/
def withdrawn (m : MarketFunds D) (bankSend : Bool) (absoluteDeficitAmount : D) : ℤ :=
  if absoluteDeficitAmount = 0 then 0
  else if bankSend then
    match m.insuranceFund with
    | none => 0
    | some balance => min balance (ceilInt absoluteDeficitAmount)
  else 0

section Deficit

variable (m : MarketFunds D) (bankSend : Bool)

/-- **THE DRAW**: all results of a payment follow from the coins withdrawn. -/
theorem payDeficit_spec (d : D) :
    (m.payDeficitFromInsuranceFund bankSend d).remainingAbsoluteDeficitAmount =
        d - newDec (m.withdrawn bankSend d) ∧
      (m.payDeficitFromInsuranceFund bankSend d).funds.marketBalance =
        m.marketBalance + newDec (m.withdrawn bankSend d) ∧
      (m.payDeficitFromInsuranceFund bankSend d).funds.getInsuranceFundBalance =
        m.getInsuranceFundBalance - m.withdrawn bankSend d := by
  by_cases hd : d = 0
  · subst hd
    simp [payDeficitFromInsuranceFund, withdrawn, newDec_zero]
  · cases hf : m.insuranceFund with
    | none =>
      simp [payDeficitFromInsuranceFund, withdrawn, hd, hf, newDec_zero, getInsuranceFundBalance]
    | some balance =>
      have hmin : (if balance < ceilInt d then balance else ceilInt d) =
          min balance (ceilInt d) := by
        split
        · next h => exact (min_eq_left h.le).symm
        · next h => exact (min_eq_right (not_lt.mp h)).symm
      have hle : ¬balance < min balance (ceilInt d) := not_lt.mpr (min_le_left _ _)
      cases bankSend with
      | false =>
        simp [payDeficitFromInsuranceFund, withdrawn, withdrawFromInsuranceFund, hd,
          hf, hmin, newDec_zero, getInsuranceFundBalance]
      | true =>
        simp only [payDeficitFromInsuranceFund, withdrawn, withdrawFromInsuranceFund,
          if_neg hd, hf, hmin, if_neg hle, if_true, incrementMarketBalance,
          getInsuranceFundBalance, Option.getD_some, and_self]

end Deficit

end MarketFunds

end ExchangeMarketFunds
