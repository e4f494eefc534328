import InjectiveCore.ExchangeDerivativeFillProofs

/-!
# The ledger of a derivative batch

After matching, the fills of a batch are settled one by one and their expansions are
collected (`DerivativeMatchingExpansionData` for the frequent batch auction,
`DerivativeMarketOrderExpansionData` for market orders, `types/v2/derivative.go`).
The collected data then becomes deposit deltas in chain format and one market balance
delta.

The route from one fill to the batch is short:

- `Balanced` says of collected data that its market balance delta is the sum over its
  expansions and that every expansion conserves value; every way of adding expansions
  keeps it (`balanced_processSideOrderbookFills`, `balanced_setExecutionData`).
- Posting expansions moves the sum of all deposits by what they hand out
  (`totalBalance_applyDeltas`), and cancelling orders moves it by nothing
  (`totalBalance_cancel`).
-/

namespace ExchangeDerivativeLedger

open DecArith DeltaLedger ExchangePosition ExchangeFees ExchangeDerivativeFill

variable {D : Type} [DecArith D]

/-! ## Cancellations -/

/-- `GetCancelRefundAmount` of a limit order: the margin and fee hold of the quantity
    left, with a fallback for stored orders without a usable quantity. -/
def getCancelRefundAmount (o : DerivativeLimitOrder D) (feeRate : D) : D :=
  if o.isReduceOnly then 0
  else if ¬0 < o.orderInfo.quantity then
    if ¬0 < o.fillable then 0 else o.margin
  else
    quo (mul o.fillable o.margin) o.orderInfo.quantity +
      mul (mul o.fillable o.orderInfo.price) (max feeRate 0)

/-- `GetCancelRefundAmount` of a market order: its whole hold. -/
def getMarketOrderCancelRefundAmount (o : DerivativeMarketOrder D) : D :=
  if o.isReduceOnly then 0 else o.marginHold

/-- `applyDerivativeLimitCancellation`: vanilla orders get their hold back; a cross
    margin subaccount has none and is recorded with a zero delta. -/
def applyDerivativeLimitCancellation (market : DerivativeMarket D)
    (isCrossSubaccount : Hash → Bool) (orderFeeRate : D) (deltas : DepositDeltas D)
    (o : DerivativeLimitOrder D) : DepositDeltas D :=
  if o.isReduceOnly then deltas
  else if isCrossSubaccount o.orderInfo.subaccountID then
    deltas.applyDelta o.orderInfo.subaccountID 0
  else
    deltas.applyDelta o.orderInfo.subaccountID
      { availableBalanceDelta :=
          toChainFormat (getCancelRefundAmount o orderFeeRate) market.quoteDecimals
        totalBalanceDelta := toChainFormat 0 market.quoteDecimals }

theorem totalBalance_cancel (market : DerivativeMarket D) (isCross : Hash → Bool)
    (rate : D) (deltas : DepositDeltas D) (o : DerivativeLimitOrder D) :
    DepositDeltas.totalBalance
        (applyDerivativeLimitCancellation market isCross rate deltas o) =
      DepositDeltas.totalBalance deltas := by
  simp only [applyDerivativeLimitCancellation]
  by_cases hro : o.isReduceOnly = true
  · rw [if_pos hro]
  · rw [if_neg hro]
    by_cases hc : isCross o.orderInfo.subaccountID = true
    · rw [if_pos hc, totalBalance_applyDelta, DepositDelta.zero_total, add_zero]
    · rw [if_neg hc, totalBalance_applyDelta, toChainFormat_zero, add_zero]

/-- Cancelling a list of orders, each at its own fee rate. -/
def applyCancellations (market : DerivativeMarket D) (isCrossSubaccount : Hash → Bool)
    (orderFeeRate : DerivativeLimitOrder D → D) (deltas : DepositDeltas D)
    (orders : List (DerivativeLimitOrder D)) : DepositDeltas D :=
  orders.foldl (fun m o =>
    applyDerivativeLimitCancellation market isCrossSubaccount (orderFeeRate o) m o) deltas

theorem totalBalance_applyCancellations (market : DerivativeMarket D)
    (isCross : Hash → Bool) (rate : DerivativeLimitOrder D → D) (deltas : DepositDeltas D)
    (orders : List (DerivativeLimitOrder D)) :
    DepositDeltas.totalBalance (applyCancellations market isCross rate deltas orders) =
      DepositDeltas.totalBalance deltas := by
  induction orders generalizing deltas with
  | nil => rfl
  | cons o rest ih =>
    exact (ih _).trans (totalBalance_cancel market isCross (rate o) deltas o)

/-! ## Posting expansions -/

/-- The deposit part of `ApplyDeltasAndGetDerivativeOrderBatchEvent` for one
    expansion: the trader, the fee recipient and the auction. -/
def applyExpansionDeltas (market : DerivativeMarket D) (deltas : DepositDeltas D)
    (e : DerivativeOrderStateExpansion D) : DepositDeltas D :=
  ((deltas.applyDelta e.subaccountID
      { availableBalanceDelta :=
          toChainFormat e.availableBalanceDelta market.quoteDecimals
        totalBalanceDelta := toChainFormat e.totalBalanceDelta market.quoteDecimals }
    ).applyDelta (feeRecipientSubaccount e.feeRecipient)
      (DepositDelta.uniform (toChainFormat e.feeRecipientReward market.quoteDecimals))
    ).applyDelta auctionSubaccountID
      (DepositDelta.uniform (toChainFormat e.auctionFeeReward market.quoteDecimals))

/-- `ApplyDeltasAndGetDerivativeOrderBatchEvent`, deposits only. -/
def applyDeltas (market : DerivativeMarket D) (deltas : DepositDeltas D)
    (expansions : List (DerivativeOrderStateExpansion D)) : DepositDeltas D :=
  expansions.foldl (applyExpansionDeltas market) deltas

/-- What an expansion hands to deposits: trader, fee recipient and auction. -/
def depositAmount (e : DerivativeOrderStateExpansion D) : D :=
  e.totalBalanceDelta + e.feeRecipientReward + e.auctionFeeReward

theorem totalBalance_applyDeltas (market : DerivativeMarket D) (deltas : DepositDeltas D)
    (es : List (DerivativeOrderStateExpansion D)) :
    DepositDeltas.totalBalance (applyDeltas market deltas es) =
      DepositDeltas.totalBalance deltas +
        toChainFormat (es.map depositAmount).sum market.quoteDecimals := by
  induction es generalizing deltas with
  | nil =>
    show DepositDeltas.totalBalance deltas =
      DepositDeltas.totalBalance deltas + toChainFormat 0 market.quoteDecimals
    rw [toChainFormat_zero, add_zero]
  | cons e rest ih =>
    have hstep : DepositDeltas.totalBalance (applyExpansionDeltas market deltas e) =
        DepositDeltas.totalBalance deltas +
          toChainFormat (depositAmount e) market.quoteDecimals := by
      simp only [applyExpansionDeltas, totalBalance_applyDelta,
        DepositDelta.uniform_total, depositAmount, toChainFormat_add]
      abel
    show DepositDeltas.totalBalance
      (applyDeltas market (applyExpansionDeltas market deltas e) rest) = _
    rw [ih, hstep, List.map_cons, List.sum_cons, toChainFormat_add, add_assoc]

/-- The negative payouts of expansions, which are booked nowhere. -/
def droppedPayouts (es : List (DerivativeOrderStateExpansion D)) : D :=
  (es.map (fun e => min e.payout 0)).sum

theorem droppedPayouts_nonpos (es : List (DerivativeOrderStateExpansion D)) :
    droppedPayouts es ≤ 0 := by
  induction es with
  | nil => exact le_refl 0
  | cons e rest ih => exact add_nonpos (min_le_right e.payout 0) ih

/-- Over expansions that conserve value, deposits and market balance together gain the
    negative payouts. -/
theorem depositAmount_add_market (es : List (DerivativeOrderStateExpansion D))
    (h : ∀ e ∈ es, e.Conserves) :
    (es.map depositAmount).sum + (es.map (·.marketBalanceDelta)).sum = droppedPayouts es := by
  induction es with
  | nil => exact add_zero 0
  | cons e rest ih =>
    have he : depositAmount e + e.marketBalanceDelta = min e.payout 0 := h e List.mem_cons_self
    have hrest := ih (fun e' he' => h e' (List.mem_cons_of_mem e he'))
    rw [List.map_cons, List.map_cons, List.sum_cons, List.sum_cons, add_add_add_comm, he, hrest]
    rfl

/-! ## The batch auction -/

/-- One entry of the merged fills of an order book side. -/
structure LimitFill (D : Type) where
  order : DerivativeLimitOrder D
  fillQuantity : D
  isTransient : Bool
  deriving DecidableEq, Repr

/-- `DerivativeMatchingExpansionData`, without the clearing data it only passes on. -/
structure DerivativeMatchingExpansionData (D : Type) where
  transientLimitBuyExpansions : List (DerivativeOrderStateExpansion D)
  transientLimitSellExpansions : List (DerivativeOrderStateExpansion D)
  restingLimitBuyExpansions : List (DerivativeOrderStateExpansion D)
  restingLimitSellExpansions : List (DerivativeOrderStateExpansion D)
  restingLimitBuyOrderCancels : List (DerivativeLimitOrder D)
  restingLimitSellOrderCancels : List (DerivativeLimitOrder D)
  transientLimitBuyOrderCancels : List (DerivativeLimitOrder D)
  transientLimitSellOrderCancels : List (DerivativeLimitOrder D)
  marketBalanceDelta : D
  openInterestDelta : D
  newRestingLimitBuyOrders : List (DerivativeLimitOrder D)
  newRestingLimitSellOrders : List (DerivativeLimitOrder D)
  partialCancelOrders : List Hash

/-- `NewDerivativeMatchingExpansionData`. -/
def newDerivativeMatchingExpansionData : DerivativeMatchingExpansionData D :=
  { transientLimitBuyExpansions := [], transientLimitSellExpansions := []
    restingLimitBuyExpansions := [], restingLimitSellExpansions := []
    restingLimitBuyOrderCancels := [], restingLimitSellOrderCancels := []
    transientLimitBuyOrderCancels := [], transientLimitSellOrderCancels := []
    marketBalanceDelta := 0, openInterestDelta := 0
    newRestingLimitBuyOrders := [], newRestingLimitSellOrders := []
    partialCancelOrders := [] }

/-- `AddExpansion`. -/
def DerivativeMatchingExpansionData.addExpansion (d : DerivativeMatchingExpansionData D)
    (isBuy isTransient : Bool) (e : DerivativeOrderStateExpansion D) :
    DerivativeMatchingExpansionData D :=
  let d := { d with marketBalanceDelta := d.marketBalanceDelta + e.marketBalanceDelta }
  match isBuy, isTransient with
  | true, true =>
    { d with transientLimitBuyExpansions := d.transientLimitBuyExpansions ++ [e] }
  | true, false =>
    { d with restingLimitBuyExpansions := d.restingLimitBuyExpansions ++ [e] }
  | false, true =>
    { d with transientLimitSellExpansions := d.transientLimitSellExpansions ++ [e] }
  | false, false =>
    { d with restingLimitSellExpansions := d.restingLimitSellExpansions ++ [e] }

/-- A partially filled transient order that is not cancelled becomes resting. -/
def DerivativeMatchingExpansionData.addNewRestingOrder
    (d : DerivativeMatchingExpansionData D) (isBuy isTransient : Bool)
    (order : DerivativeLimitOrder D) : DerivativeMatchingExpansionData D :=
  if isTransient ∧ 0 < order.fillable ∧ order.orderHash ∉ d.partialCancelOrders then
    if isBuy then
      { d with newRestingLimitBuyOrders := d.newRestingLimitBuyOrders ++ [order] }
    else { d with newRestingLimitSellOrders := d.newRestingLimitSellOrders ++ [order] }
  else d

/-- What settlement reads of an order book once matching is over. -/
structure SideFills (D : Type) where
  fills : List (LimitFill D)
  restingOrderbookCancels : List (DerivativeLimitOrder D)
  transientOrderbookCancels : List (DerivativeLimitOrder D)
  partialCancelOrders : List Hash
  openInterestDelta : D

/-- One pass of the loop in `processSideOrderbookFills`. -/
def settleFill (env : FillEnv D) (clearingPrice : D) (isBuy : Bool)
    (acc : DerivativeMatchingExpansionData D × PositionStates D) (fill : LimitFill D) :
    DerivativeMatchingExpansionData D × PositionStates D :=
  let r := applyPositionDeltaAndGetDerivativeLimitOrderStateExpansion env acc.2 isBuy
    fill.isTransient false fill.order fill.fillQuantity (some clearingPrice)
  let settled := { fill.order with fillable := fill.order.fillable - fill.fillQuantity }
  ((acc.1.addExpansion isBuy fill.isTransient r.1).addNewRestingOrder isBuy
    fill.isTransient settled, r.2)

/-- An order as settlement left it: orders are shared, so a cancelled order that was
    partially filled has its fillable quantity already reduced. -/
def afterSettlement (fills : List (LimitFill D)) (o : DerivativeLimitOrder D) :
    DerivativeLimitOrder D :=
  match fills.find? (fun f => f.order.orderHash = o.orderHash) with
  | none => o
  | some f => { o with fillable := o.fillable - f.fillQuantity }

/-- `processSideOrderbookFills`. -/
def processSideOrderbookFills (env : FillEnv D) (clearingPrice : D) (isBuy : Bool)
    (side : SideFills D)
    (acc : DerivativeMatchingExpansionData D × PositionStates D) :
    DerivativeMatchingExpansionData D × PositionStates D :=
  let d := { acc.1 with
    partialCancelOrders := acc.1.partialCancelOrders ++ side.partialCancelOrders }
  let r := side.fills.foldl (settleFill env clearingPrice isBuy) (d, acc.2)
  let restingCancels := side.restingOrderbookCancels.map (afterSettlement side.fills)
  let transientCancels :=
    side.transientOrderbookCancels.map (afterSettlement side.fills)
  let openInterestDelta := r.1.openInterestDelta + side.openInterestDelta
  (if isBuy then
    { r.1 with
      restingLimitBuyOrderCancels := restingCancels
      transientLimitBuyOrderCancels := transientCancels
      openInterestDelta := openInterestDelta }
   else
    { r.1 with
      restingLimitSellOrderCancels := restingCancels
      transientLimitSellOrderCancels := transientCancels
      openInterestDelta := openInterestDelta }, r.2)

/-- `processOrderbookFills`: buys first, then sells. -/
def processOrderbookFills (env : FillEnv D) (clearingPrice : D)
    (buys sells : Option (SideFills D)) (states : PositionStates D) :
    DerivativeMatchingExpansionData D × PositionStates D :=
  let acc := (newDerivativeMatchingExpansionData, states)
  let acc := match buys with
    | none => acc
    | some side => processSideOrderbookFills env clearingPrice true side acc
  match sells with
  | none => acc
  | some side => processSideOrderbookFills env clearingPrice false side acc

/-- The part of `DerivativeBatchExecutionData` that changes balances and positions. -/
structure DerivativeBatchExecutionData (D : Type) where
  depositDeltas : DepositDeltas D
  positions : PositionStates D
  marketBalanceDelta : D
  openInterestDelta : D

/-- `GetLimitMatchingDerivativeBatchExecutionData`. A transient order cancelled after a
    partial fill already had the taker surcharge refunded, so it is cancelled at the
    maker rate. -/
def DerivativeMatchingExpansionData.getLimitMatchingDerivativeBatchExecutionData
    (d : DerivativeMatchingExpansionData D) (market : DerivativeMarket D)
    (isCrossSubaccount : Hash → Bool) (positions : PositionStates D) :
    DerivativeBatchExecutionData D :=
  let transientCancelFeeRate := fun o : DerivativeLimitOrder D =>
    if o.orderHash ∈ d.partialCancelOrders then market.makerFeeRate
    else market.takerFeeRate
  let makerRate := fun _ : DerivativeLimitOrder D => market.makerFeeRate
  let cancel := applyCancellations market isCrossSubaccount
  let deltas := cancel makerRate Ledger.empty d.restingLimitBuyOrderCancels
  let deltas := cancel makerRate deltas d.restingLimitSellOrderCancels
  let deltas := cancel transientCancelFeeRate deltas d.transientLimitBuyOrderCancels
  let deltas := cancel transientCancelFeeRate deltas d.transientLimitSellOrderCancels
  let deltas := applyDeltas market deltas d.transientLimitBuyExpansions
  let deltas := applyDeltas market deltas d.restingLimitBuyExpansions
  let deltas := applyDeltas market deltas d.transientLimitSellExpansions
  let deltas := applyDeltas market deltas d.restingLimitSellExpansions
  { depositDeltas := deltas
    positions := positions
    marketBalanceDelta := toChainFormat d.marketBalanceDelta market.quoteDecimals
    openInterestDelta := d.openInterestDelta }

/-! ## Market orders -/

/-- Settling a list one by one, threading the positions. -/
def settleAll {α : Type}
    (settle : PositionStates D → α → DerivativeOrderStateExpansion D × PositionStates D) :
    PositionStates D → List α →
      List (DerivativeOrderStateExpansion D) × PositionStates D
  | states, [] => ([], states)
  | states, a :: rest =>
    let r := settle states a
    let rs := settleAll settle r.2 rest
    (r.1 :: rs.1, rs.2)

/-- `ProcessDerivativeMarketOrderbookMatchingResults`: without a clearing price every
    market order is returned unfilled. -/
def processDerivativeMarketOrderbookMatchingResults (env : FillEnv D)
    (clearingPrice : Option D) (tradeFeeRate tradeRewardsMultiplier : D)
    (states : PositionStates D) (orders : List (DerivativeMarketOrder D × D)) :
    List (DerivativeOrderStateExpansion D) × PositionStates D :=
  settleAll (fun st o =>
    match clearingPrice with
    | none => (unmatchedMarketOrderStateExpansion env o.1, st)
    | some price =>
      applyPositionDeltaAndGetDerivativeMarketOrderStateExpansion env st o.1 o.2 price
        tradeFeeRate tradeRewardsMultiplier) states orders

/-- `ProcessRestingDerivativeLimitOrderbookFills`. -/
def processRestingDerivativeLimitOrderbookFills (env : FillEnv D)
    (isBuy isLiquidation : Bool) (clearingPrice : Option D) (states : PositionStates D)
    (fills : List (LimitFill D)) :
    List (DerivativeOrderStateExpansion D) × PositionStates D :=
  settleAll (fun st f => applyPositionDeltaAndGetDerivativeLimitOrderStateExpansion env st
    isBuy false isLiquidation f.order f.fillQuantity clearingPrice) states fills

/-- `DerivativeMarketOrderExpansionData`, without the clearing data it only passes on. -/
structure DerivativeMarketOrderExpansionData (D : Type) where
  marketBuyExpansions : List (DerivativeOrderStateExpansion D)
  marketSellExpansions : List (DerivativeOrderStateExpansion D)
  limitBuyExpansions : List (DerivativeOrderStateExpansion D)
  limitSellExpansions : List (DerivativeOrderStateExpansion D)
  restingLimitBuyOrderCancels : List (DerivativeLimitOrder D)
  restingLimitSellOrderCancels : List (DerivativeLimitOrder D)
  marketBalanceDelta : D
  openInterestDelta : D

/-- No market orders settled yet. -/
def newDerivativeMarketOrderExpansionData : DerivativeMarketOrderExpansionData D :=
  { marketBuyExpansions := [], marketSellExpansions := []
    limitBuyExpansions := [], limitSellExpansions := []
    restingLimitBuyOrderCancels := [], restingLimitSellOrderCancels := []
    marketBalanceDelta := 0, openInterestDelta := 0 }

/-- `SetBuyExecutionData` and `SetSellExecutionData`. -/
def DerivativeMarketOrderExpansionData.setExecutionData
    (d : DerivativeMarketOrderExpansionData D) (isMarketBuy : Bool)
    (restingLimitOrderCancels : List (DerivativeLimitOrder D))
    (marketOrderStateExpansions restingLimitOrderStateExpansions :
      List (DerivativeOrderStateExpansion D)) : DerivativeMarketOrderExpansionData D :=
  let marketBalanceDelta := d.marketBalanceDelta +
    (marketOrderStateExpansions.map (·.marketBalanceDelta)).sum +
    (restingLimitOrderStateExpansions.map (·.marketBalanceDelta)).sum
  if isMarketBuy then
    { d with
      marketBuyExpansions := marketOrderStateExpansions
      limitSellExpansions := restingLimitOrderStateExpansions
      restingLimitSellOrderCancels := restingLimitOrderCancels
      marketBalanceDelta := marketBalanceDelta }
  else
    { d with
      marketSellExpansions := marketOrderStateExpansions
      limitBuyExpansions := restingLimitOrderStateExpansions
      restingLimitBuyOrderCancels := restingLimitOrderCancels
      marketBalanceDelta := marketBalanceDelta }

/-- What settlement reads of a market order book and the limit order book it was
    matched against. -/
structure MarketSideFills (D : Type) where
  orders : List (DerivativeMarketOrder D × D)
  clearingPrice : Option D
  restingFills : List (LimitFill D)
  restingOrderbookCancels : List (DerivativeLimitOrder D)
  openInterestDelta : D

/-- `processMarketOrderSide` after matching: market orders at the clearing price, then
    the resting limit orders at their own prices. -/
def processMarketOrderSide (env : FillEnv D) (isMarketBuy isLiquidation : Bool)
    (side : MarketSideFills D)
    (acc : DerivativeMarketOrderExpansionData D × PositionStates D) :
    DerivativeMarketOrderExpansionData D × PositionStates D :=
  let marketOrderTradeFeeRate := if isLiquidation then 0 else env.market.takerFeeRate
  let m := processDerivativeMarketOrderbookMatchingResults env side.clearingPrice
    marketOrderTradeFeeRate env.tradeRewardMultiplierConfig.takerPointsMultiplier acc.2
    side.orders
  let l := processRestingDerivativeLimitOrderbookFills env (!isMarketBuy) isLiquidation
    none m.2 side.restingFills
  let cancels := side.restingOrderbookCancels.map (afterSettlement side.restingFills)
  let d := { acc.1 with
    openInterestDelta := acc.1.openInterestDelta + side.openInterestDelta }
  (d.setExecutionData isMarketBuy cancels m.1 l.1, l.2)

/-- `getDerivativeMarketOrderExecutionData`: market sells first, then market buys; a
    side without market orders is skipped. -/
def processMarketOrders (env : FillEnv D) (isLiquidation : Bool)
    (sells buys : Option (MarketSideFills D)) (states : PositionStates D) :
    DerivativeMarketOrderExpansionData D × PositionStates D :=
  let acc := (newDerivativeMarketOrderExpansionData, states)
  let acc := match sells with
    | none => acc
    | some side => processMarketOrderSide env false isLiquidation side acc
  match buys with
  | none => acc
  | some side => processMarketOrderSide env true isLiquidation side acc

/-- `GetMarketDerivativeBatchExecutionData`. -/
def DerivativeMarketOrderExpansionData.getMarketDerivativeBatchExecutionData
    (d : DerivativeMarketOrderExpansionData D) (market : DerivativeMarket D)
    (isCrossSubaccount : Hash → Bool) (positions : PositionStates D) :
    DerivativeBatchExecutionData D :=
  let makerRate := fun _ : DerivativeLimitOrder D => market.makerFeeRate
  let cancel := applyCancellations market isCrossSubaccount
  let deltas := cancel makerRate Ledger.empty d.restingLimitBuyOrderCancels
  let deltas := cancel makerRate deltas d.restingLimitSellOrderCancels
  let deltas := applyDeltas market deltas d.marketBuyExpansions
  let deltas := applyDeltas market deltas d.marketSellExpansions
  let deltas := applyDeltas market deltas d.limitBuyExpansions
  let deltas := applyDeltas market deltas d.limitSellExpansions
  { depositDeltas := deltas
    positions := positions
    marketBalanceDelta := toChainFormat d.marketBalanceDelta market.quoteDecimals
    openInterestDelta := d.openInterestDelta }

/-! ## Collected expansions stay balanced -/

/-- Collected expansions and their market balance delta: the delta is the sum, and
    every expansion conserves value. -/
structure Balanced (es : List (DerivativeOrderStateExpansion D)) (delta : D) : Prop where
  sum : delta = (es.map (·.marketBalanceDelta)).sum
  conserves : ∀ e ∈ es, e.Conserves

variable {es : List (DerivativeOrderStateExpansion D)} {delta : D}

/-- A batch built from balanced expansions never hands out more than it takes. -/
theorem Balanced.batch_nonpos (h : Balanced es delta) (decimals : ℕ) :
    toChainFormat (es.map depositAmount).sum decimals + toChainFormat delta decimals ≤
      0 := by
  rw [← toChainFormat_add, h.sum, depositAmount_add_market es h.conserves]
  exact toChainFormat_nonpos (droppedPayouts_nonpos es) decimals

/-- The expansions of the batch auction, in the order they are posted. -/
def DerivativeMatchingExpansionData.expansions (d : DerivativeMatchingExpansionData D) :
    List (DerivativeOrderStateExpansion D) :=
  d.transientLimitBuyExpansions ++ d.restingLimitBuyExpansions ++
    d.transientLimitSellExpansions ++ d.restingLimitSellExpansions

/-- The expansions of the market orders, in the order they are posted. -/
def DerivativeMarketOrderExpansionData.expansions
    (d : DerivativeMarketOrderExpansionData D) :
    List (DerivativeOrderStateExpansion D) :=
  d.marketBuyExpansions ++ d.marketSellExpansions ++ d.limitBuyExpansions ++
    d.limitSellExpansions

theorem Balanced.append (h : Balanced es delta) {fs gs : List (DerivativeOrderStateExpansion D)}
    (hfs : ∀ e ∈ fs, e.Conserves) (hperm : gs.Perm (es ++ fs)) :
    Balanced gs (delta + (fs.map (·.marketBalanceDelta)).sum) where
  sum := by rw [(hperm.map _).sum_eq, List.map_append, List.sum_append, ← h.sum]
  conserves e he := List.forall_mem_append.mpr ⟨h.conserves, hfs⟩ e (hperm.mem_iff.mp he)

/-- The data of the batch auction is balanced. -/
def DerivativeMatchingExpansionData.IsBalanced (d : DerivativeMatchingExpansionData D) : Prop :=
  Balanced d.expansions d.marketBalanceDelta

/-- The data of market orders is balanced. -/
def DerivativeMarketOrderExpansionData.IsBalanced (d : DerivativeMarketOrderExpansionData D) :
    Prop :=
  Balanced d.expansions d.marketBalanceDelta

theorem balanced_addExpansion {d : DerivativeMatchingExpansionData D} (h : d.IsBalanced)
    {e : DerivativeOrderStateExpansion D} (he : e.Conserves) (isBuy isTransient : Bool) :
    (d.addExpansion isBuy isTransient e).IsBalanced := by
  have hperm : (d.addExpansion isBuy isTransient e).expansions.Perm (d.expansions ++ [e]) := by
    cases isBuy <;> cases isTransient <;>
      simp only [DerivativeMatchingExpansionData.addExpansion,
        DerivativeMatchingExpansionData.expansions, ← Multiset.coe_eq_coe,
        ← Multiset.coe_add] <;> abel
  have hone := Balanced.append h (List.forall_mem_singleton.mpr he) hperm
  rw [List.map_singleton, List.sum_singleton] at hone
  cases isBuy <;> cases isTransient <;> exact hone

theorem balanced_addNewRestingOrder {d : DerivativeMatchingExpansionData D} (h : d.IsBalanced)
    (isBuy isTransient : Bool) (o : DerivativeLimitOrder D) :
    (d.addNewRestingOrder isBuy isTransient o).IsBalanced := by
  rw [DerivativeMatchingExpansionData.addNewRestingOrder]
  split
  · cases isBuy
    · exact h
    · exact h
  · exact h

section MatchResult

variable (env : FillEnv D) (cp : D)

theorem balanced_settleFills (isBuy : Bool) (fills : List (LimitFill D))
    (acc : DerivativeMatchingExpansionData D × PositionStates D) (h : acc.1.IsBalanced) :
    (fills.foldl (settleFill env cp isBuy) acc).1.IsBalanced := by
  induction fills generalizing acc with
  | nil => exact h
  | cons f rest ih =>
    refine ih _ (balanced_addNewRestingOrder (balanced_addExpansion h ?_ _ _) _ _ _)
    exact limitExpansion_conserves _ _ _ _ _ _ _ _

theorem balanced_processSideOrderbookFills (isBuy : Bool) (side : SideFills D)
    (acc : DerivativeMatchingExpansionData D × PositionStates D) (h : acc.1.IsBalanced) :
    (processSideOrderbookFills env cp isBuy side acc).1.IsBalanced := by
  have hfold := balanced_settleFills env cp isBuy side.fills
    ({ acc.1 with
        partialCancelOrders := acc.1.partialCancelOrders ++ side.partialCancelOrders },
      acc.2) h
  cases isBuy
  · exact hfold
  · exact hfold

theorem balanced_processOrderbookFills (buys sells : Option (SideFills D))
    (states : PositionStates D) :
    (processOrderbookFills env cp buys sells states).1.IsBalanced := by
  have hnew : (newDerivativeMatchingExpansionData (D := D)).IsBalanced :=
    ⟨rfl, fun _ he => nomatch he⟩
  cases buys with
  | none =>
    cases sells with
    | none => exact hnew
    | some s => exact balanced_processSideOrderbookFills env cp false s _ hnew
  | some b =>
    have hb := balanced_processSideOrderbookFills env cp true b (_, states) hnew
    cases sells with
    | none => exact hb
    | some s => exact balanced_processSideOrderbookFills env cp false s _ hb

end MatchResult

theorem settleAll_conserves {α : Type}
    (settle : PositionStates D → α → DerivativeOrderStateExpansion D × PositionStates D)
    (hstep : ∀ st a, (settle st a).1.Conserves) (states : PositionStates D)
    (as : List α) : ∀ e ∈ (settleAll settle states as).1, e.Conserves := by
  induction as generalizing states with
  | nil => intro e he; exact nomatch he
  | cons a rest ih =>
    intro e he
    rcases List.mem_cons.mp he with h | h
    · exact h ▸ hstep states a
    · exact ih (settle states a).2 e h

/-- One side of the market orders is collected at most once, into empty lists. -/
theorem balanced_setExecutionData {d : DerivativeMarketOrderExpansionData D}
    {isMarketBuy : Bool} (cancels : List (DerivativeLimitOrder D))
    {ms ls : List (DerivativeOrderStateExpansion D)} (h : d.IsBalanced)
    (hempty : if isMarketBuy then
        d.marketBuyExpansions = [] ∧ d.limitSellExpansions = []
      else d.marketSellExpansions = [] ∧ d.limitBuyExpansions = [])
    (hm : ∀ e ∈ ms, e.Conserves) (hl : ∀ e ∈ ls, e.Conserves) :
    (d.setExecutionData isMarketBuy cancels ms ls).IsBalanced := by
  have hperm : (d.setExecutionData isMarketBuy cancels ms ls).expansions.Perm
      (d.expansions ++ (ms ++ ls)) := by
    cases isMarketBuy <;>
      simp only [Bool.false_eq_true, if_false, if_true] at hempty <;>
      simp only [DerivativeMarketOrderExpansionData.setExecutionData,
        DerivativeMarketOrderExpansionData.expansions, Bool.false_eq_true, if_false, if_true,
        hempty, ← Multiset.coe_eq_coe, ← Multiset.coe_add, Multiset.coe_nil] <;> abel
  have hboth := Balanced.append h (List.forall_mem_append.mpr ⟨hm, hl⟩) hperm
  rw [List.map_append, List.sum_append, ← add_assoc] at hboth
  cases isMarketBuy
  · exact hboth
  · exact hboth

theorem marketOrders_conserve (env : FillEnv D) (cp : Option D) (rate mult : D)
    (states : PositionStates D) (orders : List (DerivativeMarketOrder D × D)) :
    ∀ e ∈ (processDerivativeMarketOrderbookMatchingResults env cp rate mult states
      orders).1, e.Conserves := by
  refine settleAll_conserves _ ?_ states orders
  intro st o
  cases cp with
  | none => simp [unmatchedMarketOrderStateExpansion, DerivativeOrderStateExpansion.Conserves]
  | some price => exact marketExpansion_conserves env st o.1 o.2 price rate mult

theorem restingFills_conserve (env : FillEnv D) (isBuy isLiquidation : Bool)
    (cp : Option D) (states : PositionStates D) (fills : List (LimitFill D)) :
    ∀ e ∈ (processRestingDerivativeLimitOrderbookFills env isBuy isLiquidation cp states
      fills).1, e.Conserves := by
  refine settleAll_conserves _ ?_ states fills
  intro st f
  exact limitExpansion_conserves env st isBuy false isLiquidation f.order f.fillQuantity cp

theorem balanced_processMarketOrderSide (env : FillEnv D)
    (isMarketBuy isLiquidation : Bool) (side : MarketSideFills D)
    (acc : DerivativeMarketOrderExpansionData D × PositionStates D) (h : acc.1.IsBalanced)
    (hempty : if isMarketBuy then
        acc.1.marketBuyExpansions = [] ∧ acc.1.limitSellExpansions = []
      else acc.1.marketSellExpansions = [] ∧ acc.1.limitBuyExpansions = []) :
    (processMarketOrderSide env isMarketBuy isLiquidation side acc).1.IsBalanced :=
  balanced_setExecutionData
    (d := { acc.1 with
      openInterestDelta := acc.1.openInterestDelta + side.openInterestDelta })
    _ h hempty (marketOrders_conserve _ _ _ _ _ _) (restingFills_conserve _ _ _ _ _ _)

theorem balanced_processMarketOrders (env : FillEnv D) (isLiquidation : Bool)
    (sells buys : Option (MarketSideFills D)) (states : PositionStates D) :
    (processMarketOrders env isLiquidation sells buys states).1.IsBalanced := by
  have hnew : (newDerivativeMarketOrderExpansionData (D := D)).IsBalanced :=
    ⟨rfl, fun _ he => nomatch he⟩
  cases sells with
  | none =>
    cases buys with
    | none => exact hnew
    | some b => exact balanced_processMarketOrderSide env true _ b _ hnew ⟨rfl, rfl⟩
  | some s =>
    have hs := balanced_processMarketOrderSide env false isLiquidation s (_, states) hnew ⟨rfl, rfl⟩
    cases buys with
    | none => exact hs
    | some b => exact balanced_processMarketOrderSide env true _ b _ hs ⟨rfl, rfl⟩

/-! ## Batches -/

/-- Reduce-only orders filtered out before matching are cancelled with the batch. -/
def DerivativeMatchingExpansionData.addFilteredCancels
    (d : DerivativeMatchingExpansionData D)
    (buyOrdersToCancel sellOrdersToCancel : List (DerivativeLimitOrder D)) :
    DerivativeMatchingExpansionData D :=
  { d with
    transientLimitBuyOrderCancels := d.transientLimitBuyOrderCancels ++ buyOrdersToCancel
    transientLimitSellOrderCancels :=
      d.transientLimitSellOrderCancels ++ sellOrdersToCancel }

/-- `processMatchResult` of the derivative batch auction executor. -/
def processMatchResult (env : FillEnv D) (clearingPrice : D)
    (buys sells : Option (SideFills D)) (states : PositionStates D)
    (buyOrdersToCancel sellOrdersToCancel : List (DerivativeLimitOrder D)) :
    DerivativeBatchExecutionData D :=
  let r := processOrderbookFills env clearingPrice buys sells states
  (r.1.addFilteredCancels buyOrdersToCancel
    sellOrdersToCancel).getLimitMatchingDerivativeBatchExecutionData env.market
      env.isCrossMargin r.2

/-- `Execute` of the derivative market order executor after matching. -/
def processMarketMatchResult (env : FillEnv D) (isLiquidation : Bool)
    (sells buys : Option (MarketSideFills D)) (states : PositionStates D) :
    DerivativeBatchExecutionData D :=
  let r := processMarketOrders env isLiquidation sells buys states
  r.1.getMarketDerivativeBatchExecutionData env.market env.isCrossMargin r.2

theorem totalBalance_limitBatch (d : DerivativeMatchingExpansionData D)
    (market : DerivativeMarket D) (isCross : Hash → Bool) (ps : PositionStates D) :
    DepositDeltas.totalBalance
        (d.getLimitMatchingDerivativeBatchExecutionData market isCross ps).depositDeltas =
      toChainFormat (d.expansions.map depositAmount).sum market.quoteDecimals := by
  simp only [DerivativeMatchingExpansionData.getLimitMatchingDerivativeBatchExecutionData,
    totalBalance_applyDeltas, totalBalance_applyCancellations, totalBalance_empty,
    DerivativeMatchingExpansionData.expansions, List.map_append, List.sum_append,
    toChainFormat_add, zero_add]

/-- The deposits of a market order batch sum to what its expansions hand out. -/
theorem totalBalance_marketBatch (d : DerivativeMarketOrderExpansionData D)
    (market : DerivativeMarket D) (isCross : Hash → Bool) (ps : PositionStates D) :
    DepositDeltas.totalBalance
        (d.getMarketDerivativeBatchExecutionData market isCross ps).depositDeltas =
      toChainFormat (d.expansions.map depositAmount).sum market.quoteDecimals := by
  simp only [DerivativeMarketOrderExpansionData.getMarketDerivativeBatchExecutionData,
    totalBalance_applyDeltas, totalBalance_applyCancellations, totalBalance_empty,
    DerivativeMarketOrderExpansionData.expansions, List.map_append, List.sum_append,
    toChainFormat_add, zero_add]

/-- **NO VALUE IS CREATED**: in the rounded arithmetic of the chain, every fill hands
    out exactly the negative part of its payout, so no batch, of the auction or of
    market orders, credits more to deposits than it takes from the market balance. -/
theorem derivative_fills_create_no_value (env : FillEnv LegacyDec) :
    (∀ states isBuy isTransient isLiquidation order fillQuantity clearingPrice,
      let e := (applyPositionDeltaAndGetDerivativeLimitOrderStateExpansion env states
        isBuy isTransient isLiquidation order fillQuantity clearingPrice).1
      e.totalBalanceDelta + e.feeRecipientReward + e.auctionFeeReward +
        e.marketBalanceDelta = min e.payout 0) ∧
    (∀ states order fillQuantity clearingPrice takerFeeRate tradeRewardMultiplier,
      let e := (applyPositionDeltaAndGetDerivativeMarketOrderStateExpansion env states
        order fillQuantity clearingPrice takerFeeRate tradeRewardMultiplier).1
      e.totalBalanceDelta + e.feeRecipientReward + e.auctionFeeReward +
        e.marketBalanceDelta = min e.payout 0) ∧
    (∀ clearingPrice buys sells states buyCancels sellCancels,
      let b := processMatchResult env clearingPrice buys sells states buyCancels
        sellCancels
      DepositDeltas.totalBalance b.depositDeltas + b.marketBalanceDelta ≤ 0) ∧
    (∀ isLiquidation sells buys states,
      let b := processMarketMatchResult env isLiquidation sells buys states
      DepositDeltas.totalBalance b.depositDeltas + b.marketBalanceDelta ≤ 0) := by
  refine ⟨?_, ?_, ?_, ?_⟩
  · intro states isBuy isTransient isLiquidation order fq cp
    exact limitExpansion_conserves env states isBuy isTransient isLiquidation order fq cp
  · intro states order fq cp rate mult
    exact marketExpansion_conserves env states order fq cp rate mult
  · intro cp buys sells states buyCancels sellCancels
    have hb := balanced_processOrderbookFills env cp buys sells states
    simp only [processMatchResult, totalBalance_limitBatch]
    exact Balanced.batch_nonpos hb env.market.quoteDecimals
  · intro isLiquidation sells buys states
    have hb := balanced_processMarketOrders env isLiquidation sells buys states
    simp only [processMarketMatchResult, totalBalance_marketBatch]
    exact Balanced.batch_nonpos hb env.market.quoteDecimals

end ExchangeDerivativeLedger
