import InjectiveCore.ExchangeDerivativeLedgerProofs
import InjectiveCore.ExchangePositionEquityProofs

/-!
# Derivative order holds — charged once, released once

Placing a vanilla derivative order locks a **hold**: its margin plus the fee on its
notional, at the taker rate for a transient order and at the positive part of the
maker rate for a resting one. Afterwards three pieces of code give parts of it back:
the fill expansions (price improvement, discounts, the taker surcharge of what stays
unmatched, unused binary option margin), the cancel refund, and for market orders the
settlement of the whole order.

Read in exact arithmetic, all of them agree on one number. `hold` is the hold of what is
left of an order; `limitFill_locked` shows that a fill moves the locked part of the
deposit by the change of `hold`, and `run_released_add_refund` telescopes this over a
whole life of an order by induction on its fills, the step being
`step_released_add_hold`.
-/

namespace ExchangeDerivativeHold

open DecArith ExchangePosition ExchangeFees ExchangeDerivativeFill ExchangeDerivativeLedger

variable {D : Type} [DecArith D]

/-! ## Placing an order -/

/-- `DerivativeOrder`: an order as its message carries it. -/
structure DerivativeOrder (D : Type) where
  orderInfo : OrderInfo D
  orderType : ExchangeFees.OrderType
  margin : D
  deriving DecidableEq, Repr

/-- `DerivativeOrder.IsReduceOnly`. -/
def DerivativeOrder.isReduceOnly (o : DerivativeOrder D) : Bool := decide (o.margin = 0)

/-- `NewDerivativeLimitOrder`: the whole quantity is fillable. -/
def newDerivativeLimitOrder (o : DerivativeOrder D) (orderHash : Hash) :
    DerivativeLimitOrder D :=
  { orderInfo := o.orderInfo, orderType := o.orderType, margin := o.margin,
    fillable := o.orderInfo.quantity, orderHash := orderHash }

/-- The ways a margin check fails; all of them wrap `ErrInsufficientMargin`. -/
inductive MarginError (D : Type) where
  | marginCheck (need got : D)
  | initialMarginRatioCheck (need got : D)
  | buyMarkPriceThresholdCheck (markPrice threshold : D)
  | sellMarkPriceThresholdCheck (markPrice threshold : D)
  deriving DecidableEq, Repr

/-- `getMarginHold`: margin plus the fee at the positive part of the rate. -/
def getMarginHold (margin notional feeRate : D) : D :=
  margin + mul notional (max feeRate 0)

/-- `GetRequiredBinaryOptionsMargin`. -/
def getRequiredBinaryOptionsMargin (o : DerivativeOrder D) (oracleScaleFactor : ℕ) : D :=
  if o.orderType.isBuy then mul o.orderInfo.price o.orderInfo.quantity
  else mul o.orderInfo.quantity
    (getScaledPrice one oracleScaleFactor - o.orderInfo.price)

/-- `ComputeMarkPriceThreshold`. -/
def computeMarkPriceThreshold (isBuyOrLong : Bool)
    (price quantity margin initialMarginRatio : D) : D :=
  let notional := mul price quantity
  if isBuyOrLong then
    quo (margin - notional) (mul (initialMarginRatio - one) quantity)
  else quo (margin + notional) (mul (initialMarginRatio + one) quantity)

/-- `CheckInitialMarginMarkPriceRequirement`. -/
def checkInitialMarginMarkPriceRequirement (isBuyOrLong : Bool)
    (markPriceThreshold markPrice : D) : Except (MarginError D) Unit :=
  if isBuyOrLong ∧ markPrice < markPriceThreshold then
    .error (.buyMarkPriceThresholdCheck markPrice markPriceThreshold)
  else if ¬isBuyOrLong ∧ markPriceThreshold < markPrice then
    .error (.sellMarkPriceThresholdCheck markPrice markPriceThreshold)
  else .ok ()

/-- `CheckMarginAndGetMarginHold`. -/
def checkMarginAndGetMarginHold (o : DerivativeOrder D)
    (initialMarginRatio executionMarkPrice feeRate : D) (marketType : MarketType)
    (oracleScaleFactor : ℕ) : Except (MarginError D) D := do
  let notional := mul o.orderInfo.price o.orderInfo.quantity
  let marginHold :=
    getMarginHold o.margin (mul o.orderInfo.quantity o.orderInfo.price) feeRate
  if marketType = .binaryOption then
    let requiredMargin := getRequiredBinaryOptionsMargin o oracleScaleFactor
    if o.margin ≠ requiredMargin then
      .error (.marginCheck requiredMargin o.margin)
    else .ok marginHold
  else if o.margin < mul initialMarginRatio notional then
    .error (.initialMarginRatioCheck (mul initialMarginRatio notional) o.margin)
  else
    checkInitialMarginMarkPriceRequirement o.orderType.isBuy
      (computeMarkPriceThreshold o.orderType.isBuy o.orderInfo.price
        o.orderInfo.quantity o.margin initialMarginRatio) executionMarkPrice
    .ok marginHold

/-- An accepted order is charged its margin and the fee on its notional, and a
    binary option's margin is exactly the required one. -/
theorem checkMarginAndGetMarginHold_ok {o : DerivativeOrder D} {imr mark rate hold : D}
    {marketType : MarketType} {scale : ℕ}
    (h : checkMarginAndGetMarginHold o imr mark rate marketType scale = .ok hold) :
    hold = getMarginHold o.margin (mul o.orderInfo.quantity o.orderInfo.price) rate ∧
      (marketType = .binaryOption → o.margin = getRequiredBinaryOptionsMargin o scale) := by
  simp only [checkMarginAndGetMarginHold] at h
  by_cases hbo : marketType = .binaryOption
  · rw [if_pos hbo] at h
    by_cases hm : o.margin = getRequiredBinaryOptionsMargin o scale
    · rw [if_neg (not_not.mpr hm)] at h
      exact ⟨(Except.ok.inj h).symm, fun _ => hm⟩
    · rw [if_pos hm] at h
      exact nomatch h
  · rw [if_neg hbo] at h
    by_cases hi : o.margin < mul imr (mul o.orderInfo.price o.orderInfo.quantity)
    · rw [if_pos hi] at h
      exact nomatch h
    · rw [if_neg hi] at h
      cases hc : checkInitialMarginMarkPriceRequirement o.orderType.isBuy
          (computeMarkPriceThreshold o.orderType.isBuy o.orderInfo.price
            o.orderInfo.quantity o.margin imr) mark with
      | error e => rw [hc] at h; exact nomatch h
      | ok u =>
        rw [hc] at h
        exact ⟨(Except.ok.inj h).symm, fun hb => absurd hb hbo⟩

/-! ## What a fill releases, in exact arithmetic -/

/-- The bounds the exchange enforces on the fee parameters of a market. -/
structure ValidFees (market : DerivativeMarket ℚ) : Prop where
  taker_nonneg : 0 ≤ market.takerFeeRate
  relayer_nonneg : 0 ≤ market.relayerFeeShareRate
  relayer_le_one : market.relayerFeeShareRate ≤ 1

theorem fill_margins (p : Position ℚ) (isLong : Bool) (fq margin ep fee : ℚ) :
    let u := p.applyPositionDelta? (if 0 < fq then
      some { isLong := isLong, executionQuantity := fq, executionMargin := margin,
             executionPrice := ep } else none) fee
    u.closeExecutionMargin + u.collateralizationMargin = if 0 < fq then margin else 0 := by
  by_cases h : 0 < fq
  · rw [if_pos h, if_pos h]
    exact closeExecution_add_collateralization p
      { isLong := isLong, executionQuantity := fq, executionMargin := margin,
        executionPrice := ep } fee h
  · rw [if_neg h, if_neg h]
    exact add_zero 0

/-- In an isolated account the locked part of the deposit changes by the economic
    change minus what becomes available, embedded fee debt or not. -/
theorem balanceChange_locked (env : FillEnv D) (s : Hash) (u : PositionUpdate D)
    (isReduceOnly : Bool) (traderFee feeCharge available : D)
    (hiso : env.isCrossMargin s = false) :
    (balanceChange env s u isReduceOnly traderFee feeCharge
        available).totalBalanceChange -
      (balanceChange env s u isReduceOnly traderFee feeCharge available).availableBalanceChange =
      u.payout - (u.collateralizationMargin + feeCharge) - available := by
  simp only [balanceChange, hiso, Bool.false_eq_true, if_false]
  exact (adjustPositionMarginIfNecessary_spec _ _ _ _).2.1

/-- The fee a fill pays, together with its price and discount refunds and a rebate
    made available, is the fee held for the filled quantity. -/
theorem fee_and_refunds (config : FeeDiscountConfig ℚ) (hc : config.Valid) (s : Hash)
    (fq price ep rate share unmatchedRate fillable mult : ℚ) (isMaker : Bool)
    (hfq : 0 ≤ fq) (hep : 0 ≤ ep) (hs0 : 0 ≤ share) (hs1 : share ≤ 1) :
    let feeData := getTradeData config s fq ep rate share mult isMaker
    feeData.traderFee +
        (getDerivativeOrderFeesAndRefunds fillable price false fq ep rate unmatchedRate
          feeData).matchedFeeRefundOrCharge +
        (if feeData.traderFee < 0 then |feeData.traderFee| else 0) =
      fq * price * max 0 rate := by
  intro feeData
  have hd : feeData.discountedTradeFeeRate =
      discountedTradingFeeRate config rate isMaker (subaccountIDToEthAddress s) :=
    getTradeData_rate config s fq ep rate share mult isMaker
  have hrefund : (getDerivativeOrderFeesAndRefunds fillable price false fq ep rate
      unmatchedRate feeData).matchedFeeRefundOrCharge =
      fq * (price - ep) * max 0 feeData.discountedTradeFeeRate +
        fq * price * (max 0 rate - max 0 feeData.discountedTradeFeeRate) := rfl
  rw [hrefund, hd]
  rcases lt_or_ge rate 0 with hneg | hnn
  · -- a rebate: the trader's part becomes available, nothing was held
    have hfee := (getTradeData_exact_of_neg config s fq ep rate share mult isMaker hfq hep
      hneg hs0).2
    have hle : feeData.traderFee ≤ 0 := by
      rw [hfee]
      exact mul_nonpos_of_nonneg_of_nonpos (by linarith)
        (mul_nonpos_of_nonneg_of_nonpos (mul_nonneg hfq hep) hneg.le)
    rw [discountedTradingFeeRate_of_neg config hneg, max_eq_left hneg.le]
    rcases hle.eq_or_lt with he | hl
    · rw [he]; simp
    · rw [if_pos hl, abs_of_neg hl]; ring
  · obtain ⟨hd0, -, -, hfee⟩ := getTradeData_exact_of_nonneg config s fq ep rate share
      mult isMaker hc hfq hep hnn
    have hnn' : ¬feeData.traderFee < 0 := by
      rw [hfee]; exact not_lt.mpr (mul_nonneg (mul_nonneg hfq hep) hd0)
    rw [if_neg hnn', hfee, max_eq_right hd0, max_eq_right hnn]
    ring

/-! ## Limit orders -/

/-- The fee rate held for a limit order: taker while transient, the positive part of
    the maker rate once resting. -/
def holdRate (market : DerivativeMarket ℚ) (isTransient : Bool) : ℚ :=
  if isTransient then market.takerFeeRate else max market.makerFeeRate 0

/-- The hold of a limit order: its share of the margin and of the fee. -/
def hold (market : DerivativeMarket ℚ) (isTransient : Bool)
    (o : DerivativeLimitOrder ℚ) : ℚ :=
  o.fillable / o.orderInfo.quantity * o.margin +
    o.fillable * o.orderInfo.price * holdRate market isTransient

/-- The order once a quantity of it has been filled. -/
def afterFill (o : DerivativeLimitOrder D) (fillQuantity : D) : DerivativeLimitOrder D :=
  { o with fillable := o.fillable - fillQuantity }

/-- A vanilla limit order as placement accepts it: a positive quantity, and for a
    binary option exactly the required margin. -/
structure Placed (market : DerivativeMarket ℚ) (o : DerivativeLimitOrder ℚ) : Prop where
  vanilla : o.margin ≠ 0
  quantity_pos : 0 < o.orderInfo.quantity
  binary_margin : market.marketType = .binaryOption →
    o.margin = getRequiredBinaryOptionsOrderMargin o.orderInfo.price
      o.orderInfo.quantity market.oracleScaleFactor o.orderType.isBuy false

/-- A fill within the limit: a quantity the order has left, at a price that is not
    negative and no worse than its own. -/
structure WithinLimit (o : DerivativeLimitOrder ℚ) (fillQuantity : ℚ)
    (clearingPrice : Option ℚ) : Prop where
  fill_nonneg : 0 ≤ fillQuantity
  fill_le : fillQuantity ≤ o.fillable
  price_nonneg : 0 ≤ clearingPrice.getD o.orderInfo.price
  no_worse : if o.orderType.isBuy then
      clearingPrice.getD o.orderInfo.price ≤ o.orderInfo.price
    else o.orderInfo.price ≤ clearingPrice.getD o.orderInfo.price

variable {o : DerivativeLimitOrder ℚ} {market : DerivativeMarket ℚ}

theorem Placed.isReduceOnly (h : Placed market o) : o.isReduceOnly = false :=
  decide_eq_false h.vanilla

theorem Placed.afterFill (h : Placed market o) (fq : ℚ) : Placed market (afterFill o fq) :=
  ⟨h.vanilla, h.quantity_pos, h.binary_margin⟩

variable {fq : ℚ} {cp : Option ℚ}

/-- Executed margin and unused refund make up the filled share of the margin. -/
theorem limitExecutionMargin_sum (market : DerivativeMarket ℚ) (o : DerivativeLimitOrder ℚ)
    (h : Placed market o) (hw : WithinLimit o fq cp) :
    (limitExecutionMargin market o fq (cp.getD o.orderInfo.price)).1 +
        (limitExecutionMargin market o fq (cp.getD o.orderInfo.price)).2 =
      fq / o.orderInfo.quantity * o.margin := by
  have hq := h.quantity_pos.ne'
  by_cases hbo : market.marketType = .binaryOption
  · have hm := h.binary_margin hbo
    have hro := h.isReduceOnly
    have hle : getRequiredBinaryOptionsOrderMargin (cp.getD o.orderInfo.price) fq
        market.oracleScaleFactor o.orderType.isBuy false ≤
        o.margin * fq / o.orderInfo.quantity := by
      rw [hm]
      have hno := hw.no_worse
      have hf := hw.fill_nonneg
      cases hb : o.orderType.isBuy
      · rw [hb] at hno
        simp only [Bool.false_eq_true, if_false] at hno
        simp only [getRequiredBinaryOptionsOrderMargin, Bool.false_eq_true, if_false, mul_rat]
        rw [mul_right_comm, mul_div_cancel_right₀ _ hq]
        exact mul_le_mul_of_nonneg_right (by linarith) hf
      · rw [hb] at hno
        simp only [if_true] at hno
        simp only [getRequiredBinaryOptionsOrderMargin, Bool.false_eq_true, if_false,
          if_true, mul_rat]
        rw [mul_right_comm, mul_div_cancel_right₀ _ hq]
        exact mul_le_mul_of_nonneg_right hno hf
    simp only [limitExecutionMargin, hbo, ne_eq, not_true_eq_false, if_false, hro, mul_rat, quo_rat]
    rcases hle.eq_or_lt with he | hl
    · rw [if_neg (by rw [he]; exact lt_irrefl _), add_zero, he]; ring
    · rw [if_pos hl]; ring
  · simp only [limitExecutionMargin, ne_eq, hbo, not_false_eq_true, if_true, mul_rat,
      quo_rat, add_zero]
    ring

/-- **ONE FILL**: in an isolated account a fill moves the locked part of the deposit
    by exactly the change of the order's hold. -/
theorem limitFill_locked (env : FillEnv ℚ) (hfees : ValidFees env.market)
    (hc : env.feeDiscountConfig.Valid) (states : PositionStates ℚ)
    (isBuy isTransient isLiquidation : Bool) (o : DerivativeLimitOrder ℚ)
    (hiso : env.isCrossMargin o.orderInfo.subaccountID = false) (h : Placed env.market o)
    (hw : WithinLimit o fq cp) :
    (applyPositionDeltaAndGetDerivativeLimitOrderStateExpansion env states isBuy
          isTransient isLiquidation o fq cp).1.totalBalanceDelta -
        (applyPositionDeltaAndGetDerivativeLimitOrderStateExpansion env states isBuy
          isTransient isLiquidation o fq cp).1.availableBalanceDelta =
      hold env.market false (afterFill o fq) - hold env.market isTransient o := by
  have hq := h.quantity_pos.ne'
  simp only [applyPositionDeltaAndGetDerivativeLimitOrderStateExpansion,
    balanceChange_locked _ _ _ _ _ _ _ hiso]
  set ep := cp.getD o.orderInfo.price with hep
  set rate := limitTradeFeeRate env.market isTransient isLiquidation with hrate
  -- the rate held for the filled quantity
  have hmax : max 0 rate = holdRate env.market isTransient := by
    rw [hrate, holdRate]
    simp only [limitTradeFeeRate]
    cases isTransient
    · simp only [Bool.false_eq_true, if_false]
      split
      · next hl => rw [max_self, max_eq_right hl.1.le]
      · exact max_comm _ _
    · simp only [if_true]
      rw [if_neg (fun hl => absurd hl.1 (not_lt.mpr hfees.taker_nonneg)),
        max_eq_right hfees.taker_nonneg]
  have hunmatched : (if isTransient = true then
      env.market.takerFeeRate - max 0 env.market.makerFeeRate else 0) =
      holdRate env.market isTransient - holdRate env.market false := by
    cases isTransient
    · exact (sub_self _).symm
    · rw [max_comm]; rfl
  have hfee := fee_and_refunds env.feeDiscountConfig hc o.orderInfo.subaccountID fq
    o.orderInfo.price ep rate env.market.relayerFeeShareRate
    (holdRate env.market isTransient - holdRate env.market false) o.fillable
    (if isTransient = true then env.tradeRewardMultiplierConfig.takerPointsMultiplier
      else env.tradeRewardMultiplierConfig.makerPointsMultiplier)
    (!isTransient) hw.fill_nonneg hw.price_nonneg hfees.relayer_nonneg
    hfees.relayer_le_one
  rw [hmax] at hfee
  have hmargin := fill_margins
    (fillPositionStateCache env states o.orderInfo.subaccountID o.orderType.isBuy) isBuy fq
    (limitExecutionMargin env.market o fq ep).1 ep
    (getTradeData env.feeDiscountConfig o.orderInfo.subaccountID fq ep rate
      env.market.relayerFeeShareRate
      (if isTransient = true then env.tradeRewardMultiplierConfig.takerPointsMultiplier
        else env.tradeRewardMultiplierConfig.makerPointsMultiplier) (!isTransient)).traderFee
  have hshare : (if 0 < fq then (limitExecutionMargin env.market o fq ep).1 else 0) +
      (if 0 < fq then (limitExecutionMargin env.market o fq ep).2 else 0) =
      fq / o.orderInfo.quantity * o.margin := by
    by_cases hpos : 0 < fq
    · rw [if_pos hpos, if_pos hpos]
      exact limitExecutionMargin_sum env.market o h hw
    · have hzero : fq = 0 := le_antisymm (not_lt.mp hpos) hw.fill_nonneg
      rw [if_neg hpos, if_neg hpos, hzero]; simp
  simp only [hunmatched, h.isReduceOnly, Bool.false_eq_true, not_false_eq_true, and_true,
    feeCharge_eq, if_false] at hmargin hfee ⊢
  have hrefund : ∀ feeData : TradeFeeData ℚ,
      (getDerivativeOrderFeesAndRefunds o.fillable o.orderInfo.price false fq ep rate
        (holdRate env.market isTransient - holdRate env.market false)
        feeData).unmatchedFeeRefund =
      (o.fillable - fq) * o.orderInfo.price *
        (holdRate env.market isTransient - holdRate env.market false) := fun _ => rfl
  rw [hrefund]
  simp only [hold, afterFill]
  linear_combination -hmargin - hfee - hshare

/-! ## Market orders -/

/-- **MARKET ORDERS**: whatever quantity was filled, the expansion of an isolated
    vanilla market order releases the hold charged at its placement. -/
theorem marketFill_locked (env : FillEnv ℚ) (hfees : ValidFees env.market)
    (hc : env.feeDiscountConfig.Valid) (states : PositionStates ℚ)
    (o : DerivativeMarketOrder ℚ)
    (hiso : env.isCrossMargin o.orderInfo.subaccountID = false) (hvan : o.margin ≠ 0)
    (fq cp rate mult : ℚ) (hfq : 0 ≤ fq) (hcp : 0 ≤ cp) (hrate : 0 ≤ rate) :
    (applyPositionDeltaAndGetDerivativeMarketOrderStateExpansion env states o fq cp rate
          mult).1.availableBalanceDelta -
        (applyPositionDeltaAndGetDerivativeMarketOrderStateExpansion env states o fq cp
          rate mult).1.totalBalanceDelta =
      getMarginHold o.margin (mul o.orderInfo.quantity o.orderInfo.price) rate := by
  have hro : o.isReduceOnly = false := decide_eq_false hvan
  rw [← neg_sub]
  simp only [applyPositionDeltaAndGetDerivativeMarketOrderStateExpansion,
    balanceChange_locked _ _ _ _ _ _ _ hiso]
  have hfee := fee_and_refunds env.feeDiscountConfig hc o.orderInfo.subaccountID fq
    o.orderInfo.price cp rate env.market.relayerFeeShareRate rate o.orderInfo.quantity
    mult false hfq hcp hfees.relayer_nonneg hfees.relayer_le_one
  have hnorebate : ¬(getTradeData env.feeDiscountConfig o.orderInfo.subaccountID fq cp
      rate env.market.relayerFeeShareRate mult false).traderFee < 0 := by
    obtain ⟨hd0, -, -, htf⟩ := getTradeData_exact_of_nonneg env.feeDiscountConfig
      o.orderInfo.subaccountID fq cp rate env.market.relayerFeeShareRate mult false hc hfq
      hcp hrate
    rw [htf]
    exact not_lt.mpr (mul_nonneg (mul_nonneg hfq hcp) hd0)
  have hmargin := fill_margins
    (fillPositionStateCache env states o.orderInfo.subaccountID o.orderType.isBuy)
    o.orderType.isBuy fq (marketExecutionMargin env.market o fq cp) cp
    (getTradeData env.feeDiscountConfig o.orderInfo.subaccountID fq cp rate
      env.market.relayerFeeShareRate mult false).traderFee
  have hexec : (if 0 < fq then marketExecutionMargin env.market o fq cp else 0) =
      marketExecutionMargin env.market o fq cp := by
    by_cases hpos : 0 < fq
    · rw [if_pos hpos]
    · have hzero : fq = 0 := le_antisymm (not_lt.mp hpos) hfq
      rw [if_neg hpos, hzero]
      simp only [marketExecutionMargin, getRequiredBinaryOptionsOrderMargin, hro,
        Bool.false_eq_true, mul_rat, quo_rat, mul_zero, zero_div, ite_self]
  rw [hexec] at hmargin
  simp only [hro, feeCharge_eq, Bool.false_eq_true, if_false, if_neg hnorebate] at hmargin hfee ⊢
  have hrefund : ∀ feeData : TradeFeeData ℚ,
      (getDerivativeOrderFeesAndRefunds o.orderInfo.quantity o.orderInfo.price false fq cp
        rate rate feeData).unmatchedFeeRefund =
      (o.orderInfo.quantity - fq) * o.orderInfo.price * rate := fun _ => rfl
  rw [hrefund]
  simp only [getMarginHold, mul_rat, max_eq_left hrate]
  rw [max_eq_right hrate] at hfee
  linear_combination hmargin + hfee

/-! ## The life of a limit order -/

/-- A limit order on its way through the batches: what is left of it, whether it is
    still transient, and what its fills have released so far. -/
structure OrderLife where
  order : DerivativeLimitOrder ℚ
  isTransient : Bool
  released : ℚ

/-- One batch: the chain state it is settled in, the fill and the clearing price. -/
structure FillEvent where
  env : FillEnv ℚ
  states : PositionStates ℚ
  isLiquidation : Bool
  fillQuantity : ℚ
  clearingPrice : Option ℚ

/-- The expansion of an event. -/
def OrderLife.expansion (l : OrderLife) (e : FillEvent) :
    DerivativeOrderStateExpansion ℚ :=
  (applyPositionDeltaAndGetDerivativeLimitOrderStateExpansion e.env e.states
    l.order.orderType.isBuy l.isTransient e.isLiquidation l.order e.fillQuantity
    e.clearingPrice).1

/-- A batch fills the order, releases part of its hold and leaves the rest resting. -/
def OrderLife.step (l : OrderLife) (e : FillEvent) : OrderLife :=
  { order := afterFill l.order e.fillQuantity
    isTransient := false
    released := l.released + ((l.expansion e).availableBalanceDelta -
      (l.expansion e).totalBalanceDelta) }

/-- A whole life up to the cancellation or the last fill. -/
def OrderLife.run (l : OrderLife) (events : List FillEvent) : OrderLife :=
  events.foldl OrderLife.step l

/-- What cancelling the rest of the order releases: at the taker rate while it is
    transient, at the maker rate once it rests. -/
def OrderLife.cancelRefund (market : DerivativeMarket ℚ) (l : OrderLife) : ℚ :=
  getCancelRefundAmount l.order
    (if l.isTransient then market.takerFeeRate else market.makerFeeRate)

/-- The events of a life in one market: isolated margin, valid discounts, and every
    fill within the limit of what is left. -/
def OrderLife.Valid (market : DerivativeMarket ℚ) : OrderLife → List FillEvent → Prop
  | _, [] => True
  | l, e :: rest =>
    e.env.market = market ∧ e.env.feeDiscountConfig.Valid ∧
      e.env.isCrossMargin l.order.orderInfo.subaccountID = false ∧
      WithinLimit l.order e.fillQuantity e.clearingPrice ∧
      OrderLife.Valid market (l.step e) rest

section Life

variable (market) (hfees : ValidFees market)
include hfees

theorem cancelRefund_eq_hold (l : OrderLife) (h : Placed market l.order) :
    l.cancelRefund market = hold market l.isTransient l.order := by
  simp only [OrderLife.cancelRefund, getCancelRefundAmount, h.isReduceOnly,
    Bool.false_eq_true, if_false, h.quantity_pos, not_true_eq_false, mul_rat, quo_rat,
    hold, holdRate]
  cases l.isTransient
  · simp only [Bool.false_eq_true, if_false]; ring
  · simp only [if_true, max_eq_left hfees.taker_nonneg]; ring

/-- **A STEP**: released amount plus remaining hold is the same after every batch. -/
theorem step_released_add_hold (l : OrderLife) (e : FillEvent) (h : Placed market l.order)
    (hm : e.env.market = market) (hc : e.env.feeDiscountConfig.Valid)
    (hiso : e.env.isCrossMargin l.order.orderInfo.subaccountID = false)
    (hw : WithinLimit l.order e.fillQuantity e.clearingPrice) :
    (l.step e).released + hold market (l.step e).isTransient (l.step e).order =
      l.released + hold market l.isTransient l.order := by
  subst hm
  have hfill := limitFill_locked e.env hfees hc e.states l.order.orderType.isBuy
    l.isTransient e.isLiquidation l.order hiso h hw
  simp only [OrderLife.step, OrderLife.expansion]
  linear_combination -hfill

/-- **A RUN**: over any sequence of fills and a final cancel, what is released is the
    hold the run started with. -/
theorem run_released_add_refund (events : List FillEvent) (l : OrderLife)
    (h : Placed market l.order) (hv : l.Valid market events) :
    (l.run events).released + (l.run events).cancelRefund market =
      l.released + hold market l.isTransient l.order := by
  induction events generalizing l with
  | nil =>
    show l.released + l.cancelRefund market = _
    rw [cancelRefund_eq_hold market hfees l h]
  | cons e rest ih =>
    obtain ⟨hm, hc, hiso, hw, hrest⟩ := hv
    have hnext := ih (l.step e) (h.afterFill e.fillQuantity) hrest
    rw [step_released_add_hold market hfees l e h hm hc hiso hw] at hnext
    exact hnext

/-- An order accepted by the margin check has the charged amount as its hold. -/
theorem placed_of_check (o : DerivativeOrder ℚ) (orderHash : Hash) (isTransient : Bool)
    (markPrice charged : ℚ) (hvan : o.margin ≠ 0) (hq : 0 < o.orderInfo.quantity)
    (hcheck : checkMarginAndGetMarginHold o market.initialMarginRatio markPrice
      (if isTransient then market.takerFeeRate else market.makerFeeRate) market.marketType
      market.oracleScaleFactor = .ok charged) :
    Placed market (newDerivativeLimitOrder o orderHash) ∧
      hold market isTransient (newDerivativeLimitOrder o orderHash) = charged := by
  obtain ⟨hcharged, hbo⟩ := checkMarginAndGetMarginHold_ok hcheck
  constructor
  · refine ⟨hvan, hq, ?_⟩
    intro hb
    show o.margin = getRequiredBinaryOptionsOrderMargin o.orderInfo.price
      o.orderInfo.quantity market.oracleScaleFactor o.orderType.isBuy false
    rw [hbo hb]
    simp only [getRequiredBinaryOptionsMargin, getRequiredBinaryOptionsOrderMargin,
      Bool.false_eq_true, if_false, mul_rat]
    by_cases hbuy : o.orderType.isBuy = true
    · rw [if_pos hbuy, if_pos hbuy]
    · rw [if_neg hbuy, if_neg hbuy, mul_comm]
  · rw [hcharged]
    simp only [hold, holdRate, newDerivativeLimitOrder, getMarginHold, mul_rat, div_self hq.ne']
    cases isTransient
    · simp only [Bool.false_eq_true, if_false]; ring
    · simp only [if_true, max_eq_left hfees.taker_nonneg]; ring

end Life

/-- **HOLD ACCOUNTING**: every fill of an isolated vanilla limit order moves the locked
    part of the deposit by the change of the order's hold; a market order releases its
    whole margin hold, filled or not; and over any sequence of fills and a final cancel
    the released amounts add up to the hold charged at placement. -/
theorem derivative_hold_accounting (market : DerivativeMarket ℚ)
    (hfees : ValidFees market) :
    (∀ env states isBuy isTransient isLiquidation order fillQuantity clearingPrice,
      env.market = market → env.feeDiscountConfig.Valid →
      env.isCrossMargin order.orderInfo.subaccountID = false →
      Placed market order → WithinLimit order fillQuantity clearingPrice →
      let e := (applyPositionDeltaAndGetDerivativeLimitOrderStateExpansion env states
        isBuy isTransient isLiquidation order fillQuantity clearingPrice).1
      e.totalBalanceDelta - e.availableBalanceDelta =
        hold market false (afterFill order fillQuantity) - hold market isTransient order) ∧
    (∀ env states order fillQuantity clearingPrice takerFeeRate tradeRewardMultiplier,
      env.market = market → env.feeDiscountConfig.Valid →
      env.isCrossMargin order.orderInfo.subaccountID = false → order.margin ≠ 0 →
      0 ≤ fillQuantity → 0 ≤ clearingPrice → 0 ≤ takerFeeRate →
      order.marginHold = getMarginHold order.margin
        (mul order.orderInfo.quantity order.orderInfo.price) takerFeeRate →
      let e := (applyPositionDeltaAndGetDerivativeMarketOrderStateExpansion env states
        order fillQuantity clearingPrice takerFeeRate tradeRewardMultiplier).1
      e.availableBalanceDelta - e.totalBalanceDelta = order.marginHold) ∧
    (∀ (env : FillEnv ℚ) order,
      env.isCrossMargin order.orderInfo.subaccountID = false →
      let e := unmatchedMarketOrderStateExpansion env order
      e.availableBalanceDelta - e.totalBalanceDelta = order.marginHold) ∧
    (∀ (order : DerivativeOrder ℚ) orderHash isTransient markPrice charged events,
      order.margin ≠ 0 → 0 < order.orderInfo.quantity →
      checkMarginAndGetMarginHold order market.initialMarginRatio markPrice
        (if isTransient then market.takerFeeRate else market.makerFeeRate)
        market.marketType market.oracleScaleFactor = .ok charged →
      let placed : OrderLife :=
        { order := newDerivativeLimitOrder order orderHash, isTransient := isTransient,
          released := 0 }
      placed.Valid market events →
      (placed.run events).released + (placed.run events).cancelRefund market = charged) := by
  refine ⟨?_, ?_, ?_, ?_⟩
  · intro env states isBuy isTransient isLiquidation order fq cp hm hc hiso hp hw
    subst hm
    exact limitFill_locked env hfees hc states isBuy isTransient isLiquidation order hiso hp hw
  · intro env states order fq cp rate mult hm hc hiso hvan hfq hcp hrate hhold
    subst hm
    rw [hhold]
    exact marketFill_locked env hfees hc states order hiso hvan fq cp rate mult hfq hcp hrate
  · intro env order hiso
    simp [unmatchedMarketOrderStateExpansion, hiso]
  · intro order orderHash isTransient markPrice charged events hvan hq hcheck placed hv
    obtain ⟨hp, hcharged⟩ := placed_of_check market hfees order orderHash isTransient
      markPrice charged hvan hq hcheck
    have hrun := run_released_add_refund market hfees events placed hp hv
    rw [hrun, ← hcharged]
    exact zero_add _

/-- A perpetual market with a maker fee of 0.1% and a taker fee of 0.2%. -/
def sampleMarket : DerivativeMarket ℚ :=
  { marketType := .perpetual, makerFeeRate := 1 / 1000, takerFeeRate := 1 / 500
    relayerFeeShareRate := 2 / 5, oracleScaleFactor := 0, quoteDecimals := 6
    initialMarginRatio := 1 / 10, openNotionalCap := .uncapped }

/-- Nobody has a position, a discount or cross margin. -/
def sampleEnv : FillEnv ℚ :=
  { market := sampleMarket, funding := none
    tradeRewardMultiplierConfig := ⟨1, 1⟩, feeDiscountConfig := .none
    isCrossMargin := fun _ => false, getPosition := fun _ => none }

/-- A buy of 4 at 10 with a margin of 8. -/
def sampleOrder : DerivativeOrder ℚ :=
  { orderInfo := { subaccountID := 1, feeRecipient := 2, price := 10, quantity := 4,
                   cid := "" }
    orderType := .buy, margin := 8 }

/-- The sample order, filled by 1 at a clearing price of 9 while transient and then
    cancelled, releases the 8.08 it was charged. -/
theorem derivative_hold_accounting_sample :
    let placed : OrderLife :=
      { order := newDerivativeLimitOrder sampleOrder 3, isTransient := true,
        released := 0 }
    let events : List FillEvent :=
      [{ env := sampleEnv, states := fun _ => none, isLiquidation := false,
         fillQuantity := 1, clearingPrice := some 9 }]
    (placed.run events).released + (placed.run events).cancelRefund sampleMarket = 202 / 25 := by
  refine (derivative_hold_accounting sampleMarket ⟨?_, ?_, ?_⟩).2.2.2 sampleOrder 3 true 9
    (202 / 25) _ ?_ ?_ ?_ ?_
  · norm_num [sampleMarket]
  · norm_num [sampleMarket]
  · norm_num [sampleMarket]
  · norm_num [sampleOrder]
  · norm_num [sampleOrder]
  · decide +kernel
  · refine ⟨rfl, FeeDiscountConfig.none_valid, rfl, ⟨?_, ?_, ?_, ?_⟩, trivial⟩
    · norm_num
    · norm_num [newDerivativeLimitOrder, sampleOrder]
    · norm_num
    · norm_num [newDerivativeLimitOrder, sampleOrder, ExchangeFees.OrderType.isBuy]

end ExchangeDerivativeHold
