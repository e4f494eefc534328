import InjectiveCore.ExchangePositionProofs
import InjectiveCore.ExchangeFeesProofs

/-!
# Derivative fills — no fill creates value

Settling a fill of a derivative order (`keeper/derivative/order_matching.go`) nets it
into the trader's position and produces an **expansion**: what the trader's deposit,
the fee recipient, the auction and the market's own balance receive. Limit orders
and market orders are settled by two functions that differ in how they find the
execution margin and the refunds, and share how the balances are then changed
(`balanceChange`).

- `balanceChange_conserves` is the identity behind both: total balance delta, fee
  rewards and market balance delta add up to the negative part of the payout. A
  positive payout leaves the market balance, a negative one is booked nowhere.
- Chain format scales by an integer, so the identity survives into the deposit
  deltas of a batch; that is done where batches are.
-/

namespace ExchangeDerivativeFill

open DecArith DeltaLedger ExchangePosition ExchangeFees

variable {D : Type} [DecArith D]

/-! ## Orders and markets -/

/-- `DerivativeLimitOrder`. -/
structure DerivativeLimitOrder (D : Type) where
  orderInfo : OrderInfo D
  orderType : ExchangeFees.OrderType
  margin : D
  fillable : D
  orderHash : Hash
  deriving DecidableEq, Repr

/-- `DerivativeMarketOrder`. -/
structure DerivativeMarketOrder (D : Type) where
  orderInfo : OrderInfo D
  orderType : ExchangeFees.OrderType
  margin : D
  marginHold : D
  orderHash : Hash
  deriving DecidableEq, Repr

/-- An order without margin only reduces a position. -/
def DerivativeLimitOrder.isReduceOnly (o : DerivativeLimitOrder D) : Bool :=
  decide (o.margin = 0)

/-- An order without margin only reduces a position. -/
def DerivativeMarketOrder.isReduceOnly (o : DerivativeMarketOrder D) : Bool :=
  decide (o.margin = 0)

/-- `OpenNotionalCap`. -/
inductive OpenNotionalCap (D : Type) where
  | uncapped
  | capped (value : D)
  deriving DecidableEq, Repr

/-- What matching and settlement read of a derivative or binary options market. -/
structure DerivativeMarket (D : Type) where
  marketType : MarketType
  makerFeeRate : D
  takerFeeRate : D
  relayerFeeShareRate : D
  oracleScaleFactor : ℕ
  quoteDecimals : ℕ
  initialMarginRatio : D
  openNotionalCap : OpenNotionalCap D
  deriving DecidableEq, Repr

/-- The positions touched so far in a batch, by subaccount. -/
abbrev PositionStates (D : Type) := Hash → Option (Position D)

/-- What settlement reads of the chain state: the market, its funding, the reward
    multipliers and fee discounts, who trades on cross margin, and the stored
    positions of the market. -/
structure FillEnv (D : Type) where
  market : DerivativeMarket D
  funding : Option (PerpetualMarketFunding D)
  tradeRewardMultiplierConfig : PointsMultiplier D
  feeDiscountConfig : FeeDiscountConfig D
  isCrossMargin : Hash → Bool
  getPosition : Hash → Option (Position D)

/-- `GetRequiredBinaryOptionsOrderMargin`. -/
def getRequiredBinaryOptionsOrderMargin (price quantity : D) (oracleScaleFactor : ℕ)
    (isBuy isReduceOnly : Bool) : D :=
  if isReduceOnly then 0
  else if isBuy then mul price quantity
  else mul (getScaledPrice one oracleScaleFactor - price) quantity

/-- `fillPositionStateCache`: the position of a subaccount in the batch, else the
    stored one, else a new empty one. -/
def fillPositionStateCache (env : FillEnv D) (states : PositionStates D)
    (orderSubaccountID : Hash) (isOrderBuy : Bool) : Position D :=
  match states orderSubaccountID with
  | some p => p
  | none =>
    match env.getPosition orderSubaccountID with
    | some p => p
    | none => newPosition isOrderBuy (env.funding.map (·.cumulativeFunding))

/-! ## Fees, refunds and balance changes -/

/-- The three amounts `getDerivativeOrderFeesAndRefunds` returns. -/
structure FeesAndRefunds (D : Type) where
  unmatchedFeeRefund : D
  matchedFeeRefundOrCharge : D
  feeCharge : D
  deriving DecidableEq, Repr

/-- `getDerivativeOrderFeesAndRefunds`. The unmatched refund rate is zero for resting
    limit orders, taker minus positive maker rate for transient ones, and the taker
    rate for market orders. -/
def getDerivativeOrderFeesAndRefunds (orderFillableQuantity orderPrice : D)
    (isOrderReduceOnly : Bool)
    (fillQuantity executionPrice tradeFeeRate unmatchedFeeRefundRate : D)
    (feeData : TradeFeeData D) : FeesAndRefunds D :=
  if isOrderReduceOnly then
    { unmatchedFeeRefund := 0, matchedFeeRefundOrCharge := 0, feeCharge := 0 }
  else
    let positiveTradeFeeRatePart := max 0 tradeFeeRate
    let positiveDiscountedFeeRatePart := max 0 feeData.discountedTradeFeeRate
    let unfilledQuantity := orderFillableQuantity - fillQuantity
    let priceDelta := orderPrice - executionPrice
    { unmatchedFeeRefund :=
        mul (mul unfilledQuantity orderPrice) unmatchedFeeRefundRate
      -- a better price refunds fees to a buyer and charges more to a seller
      matchedFeeRefundOrCharge :=
        mul (mul fillQuantity priceDelta) positiveDiscountedFeeRatePart +
          mul (mul fillQuantity orderPrice)
            (positiveTradeFeeRatePart - positiveDiscountedFeeRatePart)
      feeCharge := feeData.traderFee }

/-- Available and total balance changes, the market balance change, and the position
    they leave. -/
structure BalanceChange (D : Type) where
  availableBalanceChange : D
  totalBalanceChange : D
  marketBalanceDelta : D
  position : Position D
  deriving DecidableEq, Repr

/-- `adjustPositionMarginIfNecessary`: a fee overcharge is embedded into the margin
    of the open position, and the market balance keeps what the deposit does not pay.
    The market balance field holds the fee debt alone. -/
def adjustPositionMarginIfNecessary (market : DerivativeMarket D) (position : Position D)
    (availableBalanceChange totalBalanceChange : D) : BalanceChange D :=
  if ¬availableBalanceChange < 0 ∨ market.marketType = .binaryOption ∨
      ¬0 < position.quantity then
    { availableBalanceChange := availableBalanceChange
      totalBalanceChange := totalBalanceChange
      marketBalanceDelta := 0
      position := position }
  else
    { availableBalanceChange := 0
      totalBalanceChange := totalBalanceChange - availableBalanceChange
      marketBalanceDelta := availableBalanceChange
      position := { position with margin := position.margin + availableBalanceChange } }

/-- The end of both settlement functions. Cross margin keeps no holds: the deposit
    takes the whole economic change and no fee debt is embedded. -/
def balanceChange (env : FillEnv D) (subaccountID : Hash) (update : PositionUpdate D)
    (isReduceOnly : Bool) (traderFee feeCharge availableBalanceChange : D) :
    BalanceChange D :=
  let totalBalanceChange :=
    update.payout - (update.collateralizationMargin + feeCharge)
  let adjusted : BalanceChange D :=
    if env.isCrossMargin subaccountID then
      { availableBalanceChange := totalBalanceChange
        totalBalanceChange := totalBalanceChange
        marketBalanceDelta := 0
        position := update.position }
    else
      adjustPositionMarginIfNecessary env.market update.position
        availableBalanceChange totalBalanceChange
  { adjusted with
    marketBalanceDelta :=
      getMarketBalanceDelta update.payout update.collateralizationMargin traderFee
        isReduceOnly + adjusted.marketBalanceDelta }

/-! ## Expansions -/

/-- `DerivativeLimitOrderDelta`; the order carries its new fillable quantity. -/
structure DerivativeLimitOrderDelta (D : Type) where
  order : DerivativeLimitOrder D
  fillQuantity : D
  cancelQuantity : D
  deriving DecidableEq, Repr

/-- `DerivativeMarketOrderDelta`. -/
structure DerivativeMarketOrderDelta (D : Type) where
  order : DerivativeMarketOrder D
  fillQuantity : D
  deriving DecidableEq, Repr

/-- `DerivativeOrderStateExpansion`. -/
structure DerivativeOrderStateExpansion (D : Type) where
  subaccountID : Hash
  positionDelta : Option (PositionDelta D)
  payout : D
  pnl : D
  marketBalanceDelta : D
  totalBalanceDelta : D
  availableBalanceDelta : D
  auctionFeeReward : D
  tradingRewardPoints : D
  feeRecipientReward : D
  feeRecipient : Address
  limitOrderFilledDelta : Option (DerivativeLimitOrderDelta D)
  marketOrderFilledDelta : Option (DerivativeMarketOrderDelta D)
  orderHash : Hash
  cid : String
  deriving DecidableEq, Repr

/-- The fee rate of a limit fill: taker when transient, maker when resting, and no
    rebate in a liquidation. -/
def limitTradeFeeRate (market : DerivativeMarket D) (isTransient isLiquidation : Bool) :
    D :=
  let tradeFeeRate := if isTransient then market.takerFeeRate else market.makerFeeRate
  if tradeFeeRate < 0 ∧ isLiquidation then 0 else tradeFeeRate

/-- The margin a limit fill executes with, and the part of the order's margin that a
    binary option bought or sold at a better price no longer needs. -/
def limitExecutionMargin (market : DerivativeMarket D) (order : DerivativeLimitOrder D)
    (fillQuantity executionPrice : D) : D × D :=
  let marginFillProportion :=
    quo (mul order.margin fillQuantity) order.orderInfo.quantity
  if market.marketType ≠ .binaryOption then (marginFillProportion, 0)
  else
    let executionMargin := getRequiredBinaryOptionsOrderMargin executionPrice
      fillQuantity market.oracleScaleFactor order.orderType.isBuy order.isReduceOnly
    (executionMargin,
      if executionMargin < marginFillProportion then
        marginFillProportion - executionMargin
      else 0)

/-- `ApplyPositionDeltaAndGetDerivativeLimitOrderStateExpansion`. A nil clearing price
    executes the order at its own price. -/
def applyPositionDeltaAndGetDerivativeLimitOrderStateExpansion (env : FillEnv D)
    (states : PositionStates D) (isBuy isTransient isLiquidation : Bool)
    (order : DerivativeLimitOrder D) (fillQuantity : D) (clearingPrice : Option D) :
    DerivativeOrderStateExpansion D × PositionStates D :=
  let executionPrice := clearingPrice.getD order.orderInfo.price
  let tradeFeeRate := limitTradeFeeRate env.market isTransient isLiquidation
  let tradeRewardMultiplier :=
    if isTransient then env.tradeRewardMultiplierConfig.takerPointsMultiplier
    else env.tradeRewardMultiplierConfig.makerPointsMultiplier
  let subaccountID := order.orderInfo.subaccountID
  let feeData := getTradeData env.feeDiscountConfig subaccountID fillQuantity
    executionPrice tradeFeeRate env.market.relayerFeeShareRate tradeRewardMultiplier
    (!isTransient)
  let position :=
    fillPositionStateCache env states subaccountID order.orderType.isBuy
  let margins := limitExecutionMargin env.market order fillQuantity executionPrice
  let positionDelta : Option (PositionDelta D) :=
    if 0 < fillQuantity then
      some { isLong := isBuy, executionQuantity := fillQuantity,
             executionMargin := margins.1, executionPrice := executionPrice }
    else none
  let unusedExecutionMarginRefund := if 0 < fillQuantity then margins.2 else 0
  let update := position.applyPositionDelta? positionDelta feeData.traderFee
  let unmatchedFeeRefundRate :=
    if isTransient then env.market.takerFeeRate - max 0 env.market.makerFeeRate else 0
  let fees := getDerivativeOrderFeesAndRefunds order.fillable order.orderInfo.price
    order.isReduceOnly fillQuantity executionPrice tradeFeeRate unmatchedFeeRefundRate
    feeData
  let order' := { order with fillable := order.fillable - fillQuantity }
  -- a rebate is available at once unless it is already part of the payout
  let rebate :=
    if feeData.traderFee < 0 ∧ ¬order.isReduceOnly then |feeData.traderFee| else 0
  let change := balanceChange env subaccountID update order.isReduceOnly
    feeData.traderFee fees.feeCharge
    (update.payout + update.closeExecutionMargin + fees.matchedFeeRefundOrCharge +
      fees.unmatchedFeeRefund + unusedExecutionMarginRefund + rebate)
  ({ subaccountID := subaccountID
     positionDelta := positionDelta
     payout := update.payout
     pnl := update.pnl
     marketBalanceDelta := change.marketBalanceDelta
     totalBalanceDelta := change.totalBalanceChange
     availableBalanceDelta := change.availableBalanceChange
     auctionFeeReward := feeData.auctionFeeReward
     tradingRewardPoints := feeData.tradingRewardPoints
     feeRecipientReward := feeData.feeRecipientReward
     feeRecipient := order.orderInfo.feeRecipient
     limitOrderFilledDelta :=
       some { order := order', fillQuantity := fillQuantity, cancelQuantity := 0 }
     marketOrderFilledDelta := none
     orderHash := order.orderHash
     cid := order.orderInfo.cid },
   Function.update states subaccountID (some change.position))

/-- The margin a market fill executes with. -/
def marketExecutionMargin (market : DerivativeMarket D) (order : DerivativeMarketOrder D)
    (fillQuantity clearingPrice : D) : D :=
  if market.marketType = .binaryOption then
    getRequiredBinaryOptionsOrderMargin clearingPrice fillQuantity
      market.oracleScaleFactor order.orderType.isBuy order.isReduceOnly
  else quo (mul order.margin fillQuantity) order.orderInfo.quantity

/-- `applyPositionDeltaAndGetDerivativeMarketOrderStateExpansion`. -/
def applyPositionDeltaAndGetDerivativeMarketOrderStateExpansion (env : FillEnv D)
    (states : PositionStates D) (order : DerivativeMarketOrder D)
    (fillQuantity clearingPrice takerFeeRate tradeRewardMultiplier : D) :
    DerivativeOrderStateExpansion D × PositionStates D :=
  let subaccountID := order.orderInfo.subaccountID
  let feeData := getTradeData env.feeDiscountConfig subaccountID fillQuantity
    clearingPrice takerFeeRate env.market.relayerFeeShareRate tradeRewardMultiplier
    false
  let position :=
    fillPositionStateCache env states subaccountID order.orderType.isBuy
  let executionMargin :=
    marketExecutionMargin env.market order fillQuantity clearingPrice
  let unusedExecutionMarginRefund := order.margin - executionMargin
  let positionDelta : Option (PositionDelta D) :=
    if 0 < fillQuantity then
      some { isLong := order.orderType.isBuy, executionQuantity := fillQuantity,
             executionMargin := executionMargin, executionPrice := clearingPrice }
    else none
  let update := position.applyPositionDelta? positionDelta feeData.traderFee
  let fees := getDerivativeOrderFeesAndRefunds order.orderInfo.quantity
    order.orderInfo.price order.isReduceOnly fillQuantity clearingPrice takerFeeRate
    takerFeeRate feeData
  let change := balanceChange env subaccountID update order.isReduceOnly
    feeData.traderFee fees.feeCharge
    (update.payout + update.closeExecutionMargin + unusedExecutionMarginRefund +
      fees.matchedFeeRefundOrCharge + fees.unmatchedFeeRefund)
  ({ subaccountID := subaccountID
     positionDelta := positionDelta
     payout := update.payout
     pnl := update.pnl
     marketBalanceDelta := change.marketBalanceDelta
     totalBalanceDelta := change.totalBalanceChange
     availableBalanceDelta := change.availableBalanceChange
     auctionFeeReward := feeData.auctionFeeReward
     tradingRewardPoints := feeData.tradingRewardPoints
     feeRecipientReward := feeData.feeRecipientReward
     feeRecipient := order.orderInfo.feeRecipient
     limitOrderFilledDelta := none
     marketOrderFilledDelta := some { order := order, fillQuantity := fillQuantity }
     orderHash := order.orderHash
     cid := order.orderInfo.cid },
   Function.update states subaccountID (some change.position))

/-- The expansion of a market order when nothing was cleared: the hold of an isolated
    order is released and nothing else changes. -/
def unmatchedMarketOrderStateExpansion (env : FillEnv D)
    (order : DerivativeMarketOrder D) : DerivativeOrderStateExpansion D :=
  { subaccountID := order.orderInfo.subaccountID
    positionDelta := none
    payout := 0
    pnl := 0
    marketBalanceDelta := 0
    totalBalanceDelta := 0
    availableBalanceDelta :=
      if env.isCrossMargin order.orderInfo.subaccountID then 0 else order.marginHold
    auctionFeeReward := 0
    tradingRewardPoints := 0
    feeRecipientReward := 0
    feeRecipient := order.orderInfo.feeRecipient
    limitOrderFilledDelta := none
    marketOrderFilledDelta := some { order := order, fillQuantity := 0 }
    orderHash := order.orderHash
    cid := order.orderInfo.cid }

/-! ## One fill -/

/-- What a fill hands out equals the negative part of its payout: a positive payout
    is taken from the market balance, a negative one is left to the insurance fund. -/
def DerivativeOrderStateExpansion.Conserves (e : DerivativeOrderStateExpansion D) :
    Prop :=
  e.totalBalanceDelta + e.feeRecipientReward + e.auctionFeeReward +
    e.marketBalanceDelta = min e.payout 0

/-- A fee debt that goes into the margin changes no sum, nothing locked and no size. -/
theorem adjustPositionMarginIfNecessary_spec (market : DerivativeMarket D) (p : Position D)
    (a t : D) :
    let change := adjustPositionMarginIfNecessary market p a t
    change.totalBalanceChange + change.marketBalanceDelta = t ∧
      change.totalBalanceChange - change.availableBalanceChange = t - a ∧
      change.position.isLong = p.isLong ∧ change.position.quantity = p.quantity := by
  simp only [adjustPositionMarginIfNecessary]
  split
  · exact ⟨add_zero t, rfl, rfl, rfl⟩
  · exact ⟨sub_add_cancel t a, sub_zero (t - a), rfl, rfl⟩

theorem getMarketBalanceDelta_eq (payout coll fee : D) (isReduceOnly : Bool) :
    getMarketBalanceDelta payout coll fee isReduceOnly =
      coll - max payout 0 - (if isReduceOnly then fee else 0) := by
  have hpos : (if payout < 0 then (0 : D) else payout) = max payout 0 := by
    by_cases h : payout < 0
    · rw [if_pos h, max_eq_right h.le]
    · rw [if_neg h, max_eq_left (not_lt.mp h)]
  simp only [getMarketBalanceDelta, hpos]
  cases isReduceOnly
  · simp
  · simp only [if_true]; abel

theorem feeCharge_eq (fillable price : D) (isReduceOnly : Bool)
    (fq ep rate unmatchedRate : D) (feeData : TradeFeeData D) :
    (getDerivativeOrderFeesAndRefunds fillable price isReduceOnly fq ep rate
        unmatchedRate feeData).feeCharge =
      if isReduceOnly then 0 else feeData.traderFee := by
  cases isReduceOnly
  · rfl
  · rfl

/-- **THE IDENTITY**: deposit, trader fee and market balance add up to the negative
    part of the payout, for isolated and cross margin. -/
theorem balanceChange_conserves (env : FillEnv D) (s : Hash) (u : PositionUpdate D)
    (isReduceOnly : Bool) (traderFee available : D) :
    (balanceChange env s u isReduceOnly traderFee
        (if isReduceOnly then 0 else traderFee) available).totalBalanceChange +
      traderFee +
      (balanceChange env s u isReduceOnly traderFee
        (if isReduceOnly then 0 else traderFee) available).marketBalanceDelta =
      min u.payout 0 := by
  have hsum : ∀ t r : D, ∀ c : BalanceChange D,
      c.totalBalanceChange + c.marketBalanceDelta = t →
      c.totalBalanceChange + traderFee + (r + c.marketBalanceDelta) = t + traderFee + r := by
    intro t r c hc
    rw [← hc]; abel
  have hmin : min u.payout 0 = u.payout - max u.payout 0 := by
    rw [eq_sub_iff_add_eq, min_add_max, add_zero]
  simp only [balanceChange, getMarketBalanceDelta_eq, hmin]
  by_cases hcross : env.isCrossMargin s = true
  · rw [if_pos hcross]
    simp only
    cases isReduceOnly
    · simp; abel
    · simp
  · rw [if_neg hcross, hsum _ _ _ (adjustPositionMarginIfNecessary_spec _ _ _ _).1]
    cases isReduceOnly
    · simp; abel
    · simp

theorem limitExpansion_conserves (env : FillEnv D) (states : PositionStates D)
    (isBuy isTransient isLiquidation : Bool) (order : DerivativeLimitOrder D) (fq : D)
    (cp : Option D) :
    (applyPositionDeltaAndGetDerivativeLimitOrderStateExpansion env states isBuy
      isTransient isLiquidation order fq cp).1.Conserves := by
  simp only [applyPositionDeltaAndGetDerivativeLimitOrderStateExpansion,
    DerivativeOrderStateExpansion.Conserves, feeCharge_eq]
  rw [add_assoc (BalanceChange.totalBalanceChange _) _ _, rewards_eq_traderFee]
  exact balanceChange_conserves env _ _ _ _ _

theorem marketExpansion_conserves (env : FillEnv D) (states : PositionStates D)
    (order : DerivativeMarketOrder D) (fq cp rate mult : D) :
    (applyPositionDeltaAndGetDerivativeMarketOrderStateExpansion env states order fq cp
      rate mult).1.Conserves := by
  simp only [applyPositionDeltaAndGetDerivativeMarketOrderStateExpansion,
    DerivativeOrderStateExpansion.Conserves, feeCharge_eq]
  rw [add_assoc (BalanceChange.totalBalanceChange _) _ _, rewards_eq_traderFee]
  exact balanceChange_conserves env _ _ _ _ _

end ExchangeDerivativeFill
