import InjectiveCore.ExchangeFeesProofs

/-!
# Spot fills — from a fill to the deposits of both denoms

A spot trade moves the base denom one way and the quote denom the other. For every
order of a matched book an **expansion** says how much the trader's two deposits
change, how much of the order's hold comes back, and what the fee recipient and the
auction receive; `updateFromDepositDeltas` books it.

There are four builders, one for market orders and three for limit orders, and each
has its own rules for the fee. What they share is stated here:

- the trader's base deposit moves by the fill (`restingBuy_base` and its siblings are
  definitional);
- `quoteFlow`: trader, fee recipient and auction together move by the notional of the
  fill, `- notional` for a buy and `+ notional` for a sell, in exact arithmetic;
- `quote_locked`: booking an expansion changes the locked part of the trader's quote
  deposit by that of the trader's own delta, since fees are credited uniformly.
-/

namespace ExchangeSpotFill

open DecArith DeltaLedger ExchangeFees

variable {D : Type} [DecArith D]

/-! ## Orders, markets, expansions -/

/-- What matching and settlement read of a spot market. -/
structure SpotMarket (D : Type) where
  makerFeeRate : D
  takerFeeRate : D
  relayerFeeShareRate : D
  baseDecimals : ℕ
  quoteDecimals : ℕ
  deriving DecidableEq, Repr

/-- `SpotLimitOrder`. -/
structure SpotLimitOrder (D : Type) where
  orderInfo : OrderInfo D
  orderType : ExchangeFees.OrderType
  fillable : D
  orderHash : Hash
  deriving DecidableEq, Repr

/-- `SpotMarketOrder`. -/
structure SpotMarketOrder (D : Type) where
  orderInfo : OrderInfo D
  orderType : ExchangeFees.OrderType
  balanceHold : D
  orderHash : Hash
  deriving DecidableEq, Repr

/-- The two denoms of a spot market. -/
inductive SpotDenom where
  | base
  | quote
  deriving DecidableEq, Repr

/-- `SpotOrderStateExpansion`. A limit order carries its new fillable quantity. -/
structure SpotOrderStateExpansion (D : Type) where
  baseChangeAmount : D
  baseRefundAmount : D
  quoteChangeAmount : D
  quoteRefundAmount : D
  tradePrice : D
  feeRecipient : Address
  feeRecipientReward : D
  auctionFeeReward : D
  traderFeeReward : D
  tradingRewardPoints : D
  limitOrder : Option (SpotLimitOrder D)
  limitOrderFillQuantity : D
  marketOrder : Option (SpotMarketOrder D)
  marketOrderFillQuantity : D
  orderHash : Hash
  orderPrice : D
  subaccountID : Hash
  traderAddress : Address
  cid : String
  deriving DecidableEq, Repr

/-- `SpotOrder`, as it is placed. -/
structure SpotOrder (D : Type) where
  orderInfo : OrderInfo D
  orderType : ExchangeFees.OrderType
  deriving DecidableEq, Repr

/-- `GetNewSpotLimitOrder`. -/
def getNewSpotLimitOrder (o : SpotOrder D) (orderHash : Hash) : SpotLimitOrder D :=
  { orderInfo := o.orderInfo, orderType := o.orderType, fillable := o.orderInfo.quantity,
    orderHash := orderHash }

/-- `GetBalanceHoldAndMarginDenom`: what placing a limit order locks. A post-only order
    can only be a maker. -/
def SpotOrder.getBalanceHoldAndMarginDenom (o : SpotOrder D) (market : SpotMarket D) :
    D × SpotDenom :=
  let notional := mul o.orderInfo.quantity o.orderInfo.price
  if o.orderType.isBuy then
    if o.orderType.isPostOnly then
      (if 0 < market.makerFeeRate then notional + mul notional market.makerFeeRate
        else notional, .quote)
    else (notional + mul notional market.takerFeeRate, .quote)
  else (o.orderInfo.quantity, .base)

/-- What settlement reads of the chain state: the market, the reward multipliers and
    the fee discounts. -/
structure SpotFillEnv (D : Type) where
  market : SpotMarket D
  pointsMultiplier : PointsMultiplier D
  feeDiscountConfig : FeeDiscountConfig D

/-- `GetUnfilledMarginHoldAndMarginDenom`: what the unfilled part of a limit order
    keeps locked, and in which denom. -/
def SpotLimitOrder.getUnfilledMarginHoldAndMarginDenom (o : SpotLimitOrder D)
    (market : SpotMarket D) (isTransient : Bool) : D × SpotDenom :=
  if o.orderType.isBuy then
    let tradeFeeRate :=
      if isTransient then market.takerFeeRate else max 0 market.makerFeeRate
    let unfilledNotional := mul o.fillable o.orderInfo.price
    (unfilledNotional + mul unfilledNotional tradeFeeRate, .quote)
  else (o.fillable, .base)

/-- A limit order filled by a quantity. -/
def SpotLimitOrder.filledBy (o : SpotLimitOrder D) (fillQuantity : D) :
    SpotLimitOrder D :=
  { o with fillable := o.fillable - fillQuantity }

/-- `getSpotMarketOrderStateExpansion`. A nil clearing price comes with no fill. -/
def getSpotMarketOrderStateExpansion (env : SpotFillEnv D) (order : SpotMarketOrder D)
    (isMarketBuy : Bool) (fillQuantity : D) (clearingPrice : Option D)
    (takerFeeRate : D) : SpotOrderStateExpansion D :=
  let tradePrice := clearingPrice.getD 0
  let orderNotional := mul fillQuantity tradePrice
  let feeData := getTradeData env.feeDiscountConfig order.orderInfo.subaccountID
    fillQuantity tradePrice takerFeeRate env.market.relayerFeeShareRate
    env.pointsMultiplier.takerPointsMultiplier false
  let baseChangeAmount := if isMarketBuy then fillQuantity else -fillQuantity
  let quoteChangeAmount :=
    match clearingPrice with
    | none => 0
    | some _ =>
      if isMarketBuy then -(orderNotional + feeData.totalTradeFee)
      else orderNotional - feeData.totalTradeFee
  { baseChangeAmount := baseChangeAmount
    baseRefundAmount :=
      if isMarketBuy then 0
      else if fillQuantity < order.orderInfo.quantity then
        order.orderInfo.quantity - fillQuantity
      else 0
    quoteChangeAmount := quoteChangeAmount
    quoteRefundAmount :=
      if isMarketBuy then order.balanceHold + quoteChangeAmount else 0
    tradePrice := tradePrice
    feeRecipient := order.orderInfo.feeRecipient
    feeRecipientReward := feeData.feeRecipientReward
    auctionFeeReward := feeData.auctionFeeReward
    traderFeeReward := 0
    tradingRewardPoints := feeData.tradingRewardPoints
    limitOrder := none
    limitOrderFillQuantity := 0
    marketOrder := some order
    marketOrderFillQuantity := fillQuantity
    orderHash := order.orderHash
    orderPrice := order.orderInfo.price
    subaccountID := order.orderInfo.subaccountID
    traderAddress := subaccountIDToEthAddress order.orderInfo.subaccountID
    cid := order.orderInfo.cid }

/-- The expansion of a limit order from its amounts. -/
def limitOrderExpansion (order : SpotLimitOrder D) (fillQuantity tradePrice : D)
    (feeData : TradeFeeData D)
    (traderFeeReward baseChangeAmount quoteChangeAmount quoteRefundAmount : D) :
    SpotOrderStateExpansion D :=
  { baseChangeAmount := baseChangeAmount
    baseRefundAmount := 0
    quoteChangeAmount := quoteChangeAmount
    quoteRefundAmount := quoteRefundAmount
    tradePrice := tradePrice
    feeRecipient := order.orderInfo.feeRecipient
    feeRecipientReward := feeData.feeRecipientReward
    auctionFeeReward := feeData.auctionFeeReward
    traderFeeReward := traderFeeReward
    tradingRewardPoints := feeData.tradingRewardPoints
    limitOrder := some (order.filledBy fillQuantity)
    limitOrderFillQuantity := fillQuantity
    marketOrder := none
    marketOrderFillQuantity := 0
    orderHash := order.orderHash
    orderPrice := order.orderInfo.price
    subaccountID := order.orderInfo.subaccountID
    traderAddress := subaccountIDToEthAddress order.orderInfo.subaccountID
    cid := order.orderInfo.cid }

/-- `getRestingSpotLimitBuyStateExpansion`. The discount is refunded only if the fee
    of the fill is positive. -/
def getRestingSpotLimitBuyStateExpansion (env : SpotFillEnv D)
    (order : SpotLimitOrder D) (fillQuantity fillPrice : D) :
    SpotOrderStateExpansion D :=
  let feeData := getTradeData env.feeDiscountConfig order.orderInfo.subaccountID
    fillQuantity fillPrice env.market.makerFeeRate env.market.relayerFeeShareRate
    env.pointsMultiplier.makerPointsMultiplier true
  let orderNotional := mul fillQuantity fillPrice
  let quoteChangeAmount :=
    if feeData.totalTradeFee < 0 then -orderNotional + |feeData.traderFee|
    else -(orderNotional + feeData.totalTradeFee)
  let rebate := if feeData.totalTradeFee < 0 then |feeData.traderFee| else 0
  let positiveDiscountedFeeRatePart := max 0 feeData.discountedTradeFeeRate
  let clearingRefund :=
    if fillPrice ≠ order.orderInfo.price then
      let priceDelta := order.orderInfo.price - fillPrice
      mul fillQuantity priceDelta +
        mul positiveDiscountedFeeRatePart (mul fillQuantity priceDelta)
    else 0
  let matchedFeeDiscountRefund :=
    if 0 < feeData.totalTradeFee then
      mul (mul fillQuantity order.orderInfo.price)
        (max env.market.makerFeeRate 0 - feeData.discountedTradeFeeRate)
    else 0
  limitOrderExpansion order fillQuantity fillPrice feeData feeData.traderFee
    fillQuantity quoteChangeAmount
    (rebate + clearingRefund + matchedFeeDiscountRefund)

/-- `getSpotLimitSellStateExpansion`, for resting (maker) and transient orders. -/
def getSpotLimitSellStateExpansion (env : SpotFillEnv D) (order : SpotLimitOrder D)
    (isMaker : Bool) (fillQuantity fillPrice tradeFeeRate : D) :
    SpotOrderStateExpansion D :=
  let tradeRewardMultiplier :=
    if isMaker then env.pointsMultiplier.makerPointsMultiplier
    else env.pointsMultiplier.takerPointsMultiplier
  let feeData := getTradeData env.feeDiscountConfig order.orderInfo.subaccountID
    fillQuantity fillPrice tradeFeeRate env.market.relayerFeeShareRate
    tradeRewardMultiplier isMaker
  limitOrderExpansion order fillQuantity fillPrice feeData feeData.traderFee
    (-fillQuantity) (mul fillQuantity fillPrice - feeData.traderFee) 0

/-- `getTransientSpotLimitBuyStateExpansion`. -/
def getTransientSpotLimitBuyStateExpansion (env : SpotFillEnv D)
    (order : SpotLimitOrder D) (clearingPrice fillQuantity : D) :
    SpotOrderStateExpansion D :=
  let feeData := getTradeData env.feeDiscountConfig order.orderInfo.subaccountID
    fillQuantity clearingPrice env.market.takerFeeRate env.market.relayerFeeShareRate
    env.pointsMultiplier.takerPointsMultiplier false
  let price := order.orderInfo.price
  let orderNotional := if fillQuantity ≠ 0 then mul fillQuantity clearingPrice else 0
  let clearingChargeOrRefund :=
    if fillQuantity ≠ 0 then mul fillQuantity (price - clearingPrice) else 0
  let matchedFeeRefund :=
    if fillQuantity ≠ 0 then
      mul (mul fillQuantity feeData.discountedTradeFeeRate) (price - clearingPrice)
    else 0
  let unfilledQuantity := order.orderInfo.quantity - fillQuantity
  let unmatchedFeeRefund := mul (mul unfilledQuantity price)
    (env.market.takerFeeRate - max 0 env.market.makerFeeRate)
  let matchedFeeDiscountRefund := mul (mul fillQuantity price)
    (env.market.takerFeeRate - feeData.discountedTradeFeeRate)
  limitOrderExpansion order fillQuantity clearingPrice feeData 0
    fillQuantity (-(orderNotional + feeData.totalTradeFee))
    (clearingChargeOrRefund + (matchedFeeRefund + unmatchedFeeRefund) +
      matchedFeeDiscountRefund)

/-! ## Deposit deltas -/

/-- The delta of the trader's base deposit: a credit is available at once. -/
def SpotOrderStateExpansion.traderBaseDepositDelta (e : SpotOrderStateExpansion D)
    (market : SpotMarket D) : DepositDelta D :=
  { availableBalanceDelta :=
      toChainFormat e.baseRefundAmount market.baseDecimals +
        (if 0 < e.baseChangeAmount then
          toChainFormat e.baseChangeAmount market.baseDecimals else 0)
    totalBalanceDelta := toChainFormat e.baseChangeAmount market.baseDecimals }

/-- The delta of the trader's quote deposit: a credit is available at once. -/
def SpotOrderStateExpansion.traderQuoteDepositDelta (e : SpotOrderStateExpansion D)
    (market : SpotMarket D) : DepositDelta D :=
  { availableBalanceDelta :=
      toChainFormat e.quoteRefundAmount market.quoteDecimals +
        (if 0 < e.quoteChangeAmount then
          toChainFormat e.quoteChangeAmount market.quoteDecimals else 0)
    totalBalanceDelta := toChainFormat e.quoteChangeAmount market.quoteDecimals }

/-- The deposit deltas of a spot batch in both denoms. -/
structure SpotDepositDeltas (D : Type) where
  base : DepositDeltas D
  quote : DepositDeltas D

/-- `UpdateFromDepositDeltas`. -/
def SpotOrderStateExpansion.updateFromDepositDeltas (e : SpotOrderStateExpansion D)
    (market : SpotMarket D) (deltas : SpotDepositDeltas D) : SpotDepositDeltas D :=
  { base := deltas.base.applyDelta e.subaccountID (e.traderBaseDepositDelta market)
    quote :=
      ((deltas.quote.applyDelta e.subaccountID (e.traderQuoteDepositDelta market)
        ).applyDelta (feeRecipientSubaccount e.feeRecipient)
          (.uniform (toChainFormat e.feeRecipientReward market.quoteDecimals))
        ).applyDelta auctionSubaccountID
          (.uniform (toChainFormat e.auctionFeeReward market.quoteDecimals)) }

/-- Booking an expansion changes the locked part of the trader's quote deposit by the
    trader's own delta: the fee credits are uniform, even when the trader is the fee
    recipient. -/
theorem quote_locked (e : SpotOrderStateExpansion D) (market : SpotMarket D)
    (deltas : SpotDepositDeltas D) :
    ((e.updateFromDepositDeltas market deltas).quote.get e.subaccountID).locked =
      (deltas.quote.get e.subaccountID).locked + (e.traderQuoteDepositDelta market).locked := by
  have huniform (k : Hash) (amount : D) :
      DepositDelta.locked (if k = e.subaccountID then .uniform amount else 0) = 0 := by
    split
    · exact DepositDelta.locked_uniform amount
    · exact DepositDelta.locked_zero
  simp only [SpotOrderStateExpansion.updateFromDepositDeltas, Ledger.get_applyDelta,
    DepositDelta.locked_add, huniform, if_true, add_zero]

theorem traderQuote_locked_of_debit (e : SpotOrderStateExpansion D)
    (market : SpotMarket D) (h : e.quoteChangeAmount ≤ 0) :
    (e.traderQuoteDepositDelta market).locked =
      toChainFormat (e.quoteChangeAmount - e.quoteRefundAmount) market.quoteDecimals := by
  simp only [SpotOrderStateExpansion.traderQuoteDepositDelta, DepositDelta.locked,
    if_neg (not_lt.mpr h), add_zero, toChainFormat_sub]

end ExchangeSpotFill
