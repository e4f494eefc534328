import InjectiveCore.ExchangeDepositsProofs
import InjectiveCore.ExchangeMarketFundsProofs
import InjectiveCore.ExchangeOpenInterestProofs

/-!
# The funds of a liquidation

A liquidation, or an offset of positions against each other, moves value between the
deposits, the bank accounts, the market balances and the insurance funds
(`keeper/derivative_liquidations.go`). This module has the state of these funds and what
its users share: refunds and deposit deltas, the payment of a deficit out of an insurance
fund, and the coins that a surplus adds to one.
-/

namespace ExchangeDeposits.State

open DecArith ExchangeFees

variable {D : Type} [DecArith D]

/-- Coins that come in from another module. -/
def receiveCoins (s : State D) (denom : String) (amount : ℤ) : State D :=
  { s with
    exchangeModule := Function.update s.exchangeModule denom
      (s.exchangeModule denom + amount) }

/-- Cancelling orders: each refund is made available. -/
def refundAll (s : State D) (bankSend : Bool) (subaccountID : Hash) (denom : String)
    (refunds : List D) : State D :=
  refunds.foldl (fun s refund =>
    s.incrementAvailableBalanceOrBank bankSend subaccountID denom refund) s

/-- The deposit deltas of an execution. A liquidation beyond bankruptcy does not charge
    the bank. -/
def applyDepositDeltas (s : State D) (bankSend : Hash → Bool) (isLiquidation : Bool)
    (denom : String) (deltas : DepositDeltas D) : State D :=
  deltas.entries.foldl (fun s e =>
    s.updateDepositWithDelta (bankSend e.1) isLiquidation e.1 denom e.2) s

end ExchangeDeposits.State

namespace ExchangeLiquidation

open DecArith ExchangeFees ExchangeDeposits ExchangeMarketFunds

variable {D : Type} [DecArith D]

/-- Deposits and bank accounts, and the funds behind each market. -/
structure LiquidationState (D : Type) where
  bank : State D
  markets : Hash → MarketFunds D

namespace LiquidationState

/-- Replace the funds of a market. -/
def setMarket (s : LiquidationState D) (marketID : Hash) (funds : MarketFunds D) :
    LiquidationState D :=
  { s with markets := Function.update s.markets marketID funds }

omit [DecArith D] in
@[simp] theorem setMarket_self (s : LiquidationState D) (marketID : Hash)
    (funds : MarketFunds D) : (s.setMarket marketID funds).markets marketID = funds :=
  Function.update_self ..

/-- `IncrementMarketBalance`, and `ApplyMarketBalanceDelta`. -/
def incrementMarketBalance (s : LiquidationState D) (marketID : Hash) (amount : D) :
    LiquidationState D :=
  s.setMarket marketID ((s.markets marketID).incrementMarketBalance amount)

end LiquidationState

/-- What is fixed for a liquidation. `bankSend` and `insuranceSend` are the answers of the
    bank to transfers with the owner of a subaccount and with the insurance module. -/
structure LiquidationContext (D : Type) where
  marketID : Hash
  quoteDenom : String
  positionSubaccountID : Hash
  liquidatorAddr : Address
  liquidatorRewardShareRate : D
  bankSend : Hash → Bool
  insuranceSend : Bool

/-- The whole coins of a surplus that do not go to the liquidator. -/
def insuranceFundPaymentAmount (c : LiquidationContext D) (surplusAmount : D) : ℤ :=
  truncateInt (mul surplusAmount (one - c.liquidatorRewardShareRate))

/-- `PayDeficitFromInsuranceFund`: the coins withdrawn come to the exchange module. -/
def payDeficitFromInsuranceFund (s : LiquidationState D) (bankSend : Bool)
    (quoteDenom : String) (marketID : Hash) (absoluteDeficitAmount : D) :
    Except InsuranceError (LiquidationState D × D) :=
  let payment :=
    (s.markets marketID).payDeficitFromInsuranceFund bankSend absoluteDeficitAmount
  match payment.err with
  | some e => .error e
  | none =>
    let withdrawn := (s.markets marketID).withdrawn bankSend absoluteDeficitAmount
    .ok ({ bank := s.bank.receiveCoins quoteDenom withdrawn
           markets := Function.update s.markets marketID payment.funds },
      payment.remainingAbsoluteDeficitAmount)

/-- `MoveCoinsIntoInsuranceFund`: the coins leave the exchange module. -/
def moveCoinsIntoInsuranceFund (s : LiquidationState D) (bankSend : Bool)
    (quoteDenom : String) (marketID : Hash) (amount : ℤ) :
    Except InsuranceError (LiquidationState D) :=
  match (s.markets marketID).moveCoinsIntoInsuranceFund bankSend amount with
  | .error e => .error e
  | .ok funds =>
    .ok { bank := s.bank.receiveCoins quoteDenom (-amount)
          markets := Function.update s.markets marketID funds }

/-- Deposits of 50 and 500, a market balance of 1000 and no insurance fund. -/
def sampleState : LiquidationState LegacyDec where
  bank :=
    { deposits := Function.update (Function.update (fun _ => ⟨0, 0⟩)
        (1, "usdt") ⟨newDec 50, newDec 50⟩) (2, "usdt") ⟨newDec 320, newDec 500⟩
      accounts := fun _ => 0
      exchangeModule := Function.update (fun _ => 0) "usdt" 1550 }
  markets := fun _ => ⟨newDec 1000, Option.none⟩

end ExchangeLiquidation
