import InjectiveCore.ExchangeSpotFillProofs

/-!
# Holds of spot limit buys — what stays locked

A limit buy locks quote balance for its notional and its fee: at the taker rate while
it is transient, at the maker rate (if positive) once it rests. Every fill should
release exactly the part of the hold that the filled quantity stood for.

In exact arithmetic it does, with one exception. The refund of the maker discount
stands under `if feeData.TotalTradeFee.IsPositive()`, so when the discounted fee is
zero while the undiscounted one was not, the fee part of the hold is neither charged
nor refunded: `DiscountLost`. Transient buys refund their discount without that test.

- `limitBuy_locked`: one fill changes the locked balance by the change of the hold plus
  what a lost discount keeps.
- `run_released`: over a life of fills and a final cancel, the released amounts fall
  short of the charged hold by exactly the lost discounts.
-/

namespace ExchangeSpotHold

open DecArith DeltaLedger ExchangeFees ExchangeSpotFill

/-- The bounds the exchange puts on the fees of a spot market. -/
structure ValidFees (market : SpotMarket ℚ) : Prop where
  taker_nonneg : 0 ≤ market.takerFeeRate
  maker_ge : -1 ≤ market.makerFeeRate
  share_nonneg : 0 ≤ market.relayerFeeShareRate
  share_le_one : market.relayerFeeShareRate ≤ 1

/-- The quote balance the unfilled part of a limit buy keeps locked. -/
def hold (market : SpotMarket ℚ) (isTransient : Bool) (o : SpotLimitOrder ℚ) : ℚ :=
  (o.getUnfilledMarginHoldAndMarginDenom market isTransient).1

variable {o : SpotLimitOrder ℚ}

theorem hold_resting (market : SpotMarket ℚ) (hbuy : o.orderType.isBuy = true) :
    hold market false o = o.fillable * o.orderInfo.price * (1 + max 0 market.makerFeeRate) := by
  simp only [hold, SpotLimitOrder.getUnfilledMarginHoldAndMarginDenom, hbuy, if_true,
    Bool.false_eq_true, if_false, mul_rat]
  ring

theorem hold_transient (market : SpotMarket ℚ) (hbuy : o.orderType.isBuy = true) :
    hold market true o = o.fillable * o.orderInfo.price * (1 + market.takerFeeRate) := by
  simp only [hold, SpotLimitOrder.getUnfilledMarginHoldAndMarginDenom, hbuy, if_true, mul_rat]
  ring

/-! ## One fill -/

/-- The expansion of a limit buy, transient or resting. -/
def limitBuyExpansion (env : SpotFillEnv ℚ) (isTransient : Bool) (o : SpotLimitOrder ℚ)
    (fillQuantity fillPrice : ℚ) : SpotOrderStateExpansion ℚ :=
  if isTransient then getTransientSpotLimitBuyStateExpansion env o fillPrice fillQuantity
  else getRestingSpotLimitBuyStateExpansion env o fillQuantity fillPrice

/-- A limit buy of the book: a positive price, and nothing filled while transient. -/
structure Booked (o : SpotLimitOrder ℚ) (isTransient : Bool) : Prop where
  buy : o.orderType.isBuy = true
  price_pos : 0 < o.orderInfo.price
  unfilled : isTransient = true → o.fillable = o.orderInfo.quantity

/-- A fill of at most the fillable quantity at a price not above the limit. -/
structure WithinLimit (o : SpotLimitOrder ℚ) (fillQuantity fillPrice : ℚ) : Prop where
  quantity_nonneg : 0 ≤ fillQuantity
  quantity_le : fillQuantity ≤ o.fillable
  price_nonneg : 0 ≤ fillPrice
  price_le : fillPrice ≤ o.orderInfo.price

/-- The maker rate the order's owner pays after the discount. -/
def discountedMakerFeeRate (env : SpotFillEnv ℚ) (o : SpotLimitOrder ℚ) : ℚ :=
  discountedTradingFeeRate env.feeDiscountConfig env.market.makerFeeRate true
    (subaccountIDToEthAddress o.orderInfo.subaccountID)

/-- A resting fill whose fee is discounted all the way to zero. -/
def DiscountLost (env : SpotFillEnv ℚ) (o : SpotLimitOrder ℚ) (isTransient : Bool)
    (fillQuantity fillPrice : ℚ) : Prop :=
  isTransient = false ∧ 0 < fillQuantity ∧
    discountedMakerFeeRate env o < env.market.makerFeeRate ∧
    (discountedMakerFeeRate env o = 0 ∨ fillPrice = 0)

instance (env : SpotFillEnv ℚ) (o : SpotLimitOrder ℚ) (isTransient : Bool)
    (fillQuantity fillPrice : ℚ) :
    Decidable (DiscountLost env o isTransient fillQuantity fillPrice) :=
  inferInstanceAs (Decidable (_ ∧ _ ∧ _ ∧ _))

/-- What a fill leaves locked although no open order stands for it. -/
def keptLocked (env : SpotFillEnv ℚ) (o : SpotLimitOrder ℚ) (isTransient : Bool)
    (fillQuantity fillPrice : ℚ) : ℚ :=
  if DiscountLost env o isTransient fillQuantity fillPrice then
    fillQuantity * o.orderInfo.price *
      (env.market.makerFeeRate - discountedMakerFeeRate env o)
  else 0

variable {env : SpotFillEnv ℚ} {isTransient : Bool} {fq fp : ℚ}

theorem keptLocked_pos (hprice : 0 < o.orderInfo.price)
    (h : DiscountLost env o isTransient fq fp) : 0 < keptLocked env o isTransient fq fp := by
  rw [keptLocked, if_pos h]
  exact mul_pos (mul_pos h.2.1 hprice) (sub_pos.mpr h.2.2.1)

theorem keptLocked_eq_zero (h : ¬DiscountLost env o isTransient fq fp) :
    keptLocked env o isTransient fq fp = 0 := if_neg h

theorem keptLocked_nonneg (hprice : 0 < o.orderInfo.price) :
    0 ≤ keptLocked env o isTransient fq fp := by
  by_cases h : DiscountLost env o isTransient fq fp
  · exact (keptLocked_pos hprice h).le
  · exact (keptLocked_eq_zero h).ge

theorem keptLocked_eq_zero_iff (hprice : 0 < o.orderInfo.price) :
    keptLocked env o isTransient fq fp = 0 ↔ ¬DiscountLost env o isTransient fq fp :=
  ⟨fun h0 h => (keptLocked_pos hprice h).ne' h0, keptLocked_eq_zero⟩

/-- The refund for a better price needs no case split: it vanishes at the limit. -/
theorem clearingRefund_eq (fq price fp rate : ℚ) :
    (if fp ≠ price then fq * (price - fp) + rate * (fq * (price - fp)) else 0) =
      (1 + rate) * (fq * (price - fp)) := by
  by_cases h : fp = price
  · rw [if_neg (not_not.mpr h), h, sub_self, mul_zero, mul_zero]
  · rw [if_pos h]; ring

section Buy

variable (env : SpotFillEnv ℚ) (hw : WithinLimit o fq fp)
include hw

theorem restingBuy_rebate (hfees : ValidFees env.market) (hmaker : env.market.makerFeeRate < 0) :
    let e := getRestingSpotLimitBuyStateExpansion env o fq fp
    e.quoteChangeAmount ≤ 0 ∧
      e.quoteChangeAmount - e.quoteRefundAmount = -(fq * o.orderInfo.price) := by
  intro e
  obtain ⟨htotal, htrader⟩ := getTradeData_exact_of_neg env.feeDiscountConfig
    o.orderInfo.subaccountID fq fp env.market.makerFeeRate env.market.relayerFeeShareRate
    env.pointsMultiplier.makerPointsMultiplier true hw.quantity_nonneg hw.price_nonneg
    hmaker hfees.share_nonneg
  have hn : 0 ≤ fq * fp := mul_nonneg hw.quantity_nonneg hw.price_nonneg
  have hle : fq * fp * env.market.makerFeeRate ≤ 0 := mul_nonpos_of_nonneg_of_nonpos hn hmaker.le
  have habs : |(1 - env.market.relayerFeeShareRate) *
      (fq * fp * env.market.makerFeeRate)| ≤ fq * fp := by
    have hshare0 := hfees.share_nonneg
    have hshare1 := sub_nonneg.mpr hfees.share_le_one
    have hmge := hfees.maker_ge
    rw [abs_of_nonpos (mul_nonpos_of_nonneg_of_nonpos hshare1 hle)]
    have h1 : -(fq * fp * env.market.makerFeeRate) ≤ fq * fp := by nlinarith
    nlinarith
  have hchange : e.quoteChangeAmount =
      -(fq * fp) + if fq * fp * env.market.makerFeeRate < 0 then
        |(1 - env.market.relayerFeeShareRate) * (fq * fp * env.market.makerFeeRate)|
      else 0 := by
    simp only [e, getRestingSpotLimitBuyStateExpansion, limitOrderExpansion, htotal,
      htrader, mul_rat]
    split
    · rfl
    · next h => rw [le_antisymm hle (not_lt.mp h)]; ring
  have hrefund : e.quoteRefundAmount =
      (if fq * fp * env.market.makerFeeRate < 0 then
        |(1 - env.market.relayerFeeShareRate) * (fq * fp * env.market.makerFeeRate)|
      else 0) + fq * (o.orderInfo.price - fp) := by
    simp only [e, getRestingSpotLimitBuyStateExpansion, limitOrderExpansion, htotal,
      htrader, getTradeData_rate, discountedTradingFeeRate_of_neg _ hmaker,
      max_eq_left hmaker.le, mul_rat, clearingRefund_eq, if_neg (not_lt.mpr hle)]
    ring
  constructor
  · rw [hchange]
    split
    · linarith
    · linarith
  · rw [hchange, hrefund]; ring

/-- A resting buy at a fee releases the notional and the fee at its limit price, but
    for a lost discount. -/
theorem restingBuy_fee (hc : env.feeDiscountConfig.Valid) (hmaker : 0 ≤ env.market.makerFeeRate) :
    let e := getRestingSpotLimitBuyStateExpansion env o fq fp
    e.quoteChangeAmount ≤ 0 ∧
      e.quoteChangeAmount - e.quoteRefundAmount =
        -(fq * o.orderInfo.price * (1 + env.market.makerFeeRate)) +
          keptLocked env o false fq fp := by
  intro e
  obtain ⟨hd0, hd1, htotal, -⟩ := getTradeData_exact_of_nonneg env.feeDiscountConfig
    o.orderInfo.subaccountID fq fp env.market.makerFeeRate env.market.relayerFeeShareRate
    env.pointsMultiplier.makerPointsMultiplier true hc hw.quantity_nonneg hw.price_nonneg
    hmaker
  change 0 ≤ discountedMakerFeeRate env o at hd0
  change discountedMakerFeeRate env o ≤ _ at hd1
  change _ = fq * fp * discountedMakerFeeRate env o at htotal
  have hfq := hw.quantity_nonneg
  have hfp := hw.price_nonneg
  have hfee : 0 ≤ fq * fp * discountedMakerFeeRate env o := mul_nonneg (mul_nonneg hfq hfp) hd0
  have hchange : e.quoteChangeAmount =
      -(fq * fp + fq * fp * discountedMakerFeeRate env o) := by
    simp only [e, getRestingSpotLimitBuyStateExpansion, limitOrderExpansion, htotal,
      if_neg (not_lt.mpr hfee), mul_rat]
  have hrefund : e.quoteRefundAmount =
      (1 + discountedMakerFeeRate env o) * (fq * (o.orderInfo.price - fp)) +
        if 0 < fq * fp * discountedMakerFeeRate env o then
          fq * o.orderInfo.price * (env.market.makerFeeRate - discountedMakerFeeRate env o)
        else 0 := by
    simp only [e, getRestingSpotLimitBuyStateExpansion, limitOrderExpansion, htotal,
      if_neg (not_lt.mpr hfee), mul_rat, getTradeData_rate, clearingRefund_eq, zero_add,
      max_eq_left hmaker]
    change (1 + max 0 (discountedMakerFeeRate env o)) * _ + _ = _
    rw [max_eq_right hd0]
    rfl
  -- the discount comes back unless the fee is zero
  have hkept : (if 0 < fq * fp * discountedMakerFeeRate env o then
        fq * o.orderInfo.price * (env.market.makerFeeRate - discountedMakerFeeRate env o) else 0) =
      fq * o.orderInfo.price * (env.market.makerFeeRate - discountedMakerFeeRate env o) -
        keptLocked env o false fq fp := by
    by_cases hlost : DiscountLost env o false fq fp
    · have hzero : fq * fp * discountedMakerFeeRate env o = 0 := by
        rcases hlost.2.2.2 with h | h
        · rw [h, mul_zero]
        · rw [h, mul_zero, zero_mul]
      rw [if_neg (by rw [hzero]; exact lt_irrefl 0), keptLocked, if_pos hlost, sub_self]
    · rw [keptLocked_eq_zero hlost, sub_zero]
      split
      · rfl
      · next hnot =>
          -- no fee and no lost discount: nothing filled or nothing discounted
          rcases hfq.eq_or_lt with h0 | hpos
          · rw [← h0, zero_mul, zero_mul]
          · rcases hd1.eq_or_lt with he | hlt
            · rw [he, sub_self, mul_zero]
            · refine absurd ⟨rfl, hpos, hlt, ?_⟩ hlost
              have hzero := le_antisymm (not_lt.mp hnot) hfee
              rcases mul_eq_zero.mp hzero with h | h
              · exact Or.inr ((mul_eq_zero.mp h).resolve_left hpos.ne')
              · exact Or.inl h
  constructor
  · rw [hchange]
    linarith [mul_nonneg hfq hfp]
  · rw [hchange, hrefund, hkept]; ring

/-- A transient buy releases the notional and the taker fee of what was filled, and
    the difference to the maker fee of what stays in the book. -/
theorem transientBuy_fee (hfees : ValidFees env.market) (hc : env.feeDiscountConfig.Valid) :
    let e := getTransientSpotLimitBuyStateExpansion env o fp fq
    e.quoteChangeAmount ≤ 0 ∧
      e.quoteChangeAmount - e.quoteRefundAmount =
        -(fq * o.orderInfo.price * (1 + env.market.takerFeeRate)) -
          (o.orderInfo.quantity - fq) * o.orderInfo.price *
            (env.market.takerFeeRate - max 0 env.market.makerFeeRate) := by
  intro e
  obtain ⟨hd0, -, htotal, -⟩ := getTradeData_exact_of_nonneg env.feeDiscountConfig
    o.orderInfo.subaccountID fq fp env.market.takerFeeRate env.market.relayerFeeShareRate
    env.pointsMultiplier.takerPointsMultiplier false hc hw.quantity_nonneg hw.price_nonneg
    hfees.taker_nonneg
  have hn : 0 ≤ fq * fp := mul_nonneg hw.quantity_nonneg hw.price_nonneg
  have hite (x : ℚ) (hx : fq = 0 → x = 0) : (if fq ≠ 0 then x else 0) = x := by
    by_cases h : fq = 0
    · rw [if_neg (not_not.mpr h), hx h]
    · rw [if_pos h]
  constructor
  · simp only [e, getTransientSpotLimitBuyStateExpansion, limitOrderExpansion, htotal,
      mul_rat]
    rw [hite (fq * fp) (by intro h; rw [h, zero_mul])]
    linarith [mul_nonneg hn hd0]
  · simp only [e, getTransientSpotLimitBuyStateExpansion, limitOrderExpansion, htotal,
      getTradeData_rate, mul_rat]
    rw [hite (fq * fp) (by intro h; rw [h, zero_mul]),
      hite (fq * (o.orderInfo.price - fp)) (by intro h; rw [h, zero_mul]),
      hite _ (by intro h; rw [h, zero_mul, zero_mul])]
    ring

/-- **A FILL**: the locked balance moves by the change of the order's hold, plus what a
    lost discount keeps. -/
theorem limitBuy_locked (hfees : ValidFees env.market) (hc : env.feeDiscountConfig.Valid)
    (isTransient : Bool) (ho : Booked o isTransient) :
    ((limitBuyExpansion env isTransient o fq fp).traderQuoteDepositDelta
        env.market).locked =
      toChainFormat (hold env.market false (o.filledBy fq) -
        hold env.market isTransient o + keptLocked env o isTransient fq fp)
        env.market.quoteDecimals := by
  have hafter : hold env.market false (o.filledBy fq) =
      (o.fillable - fq) * o.orderInfo.price * (1 + max 0 env.market.makerFeeRate) :=
    hold_resting env.market (o := o.filledBy fq) ho.buy
  cases isTransient with
  | true =>
    obtain ⟨hdebit, hlocked⟩ := transientBuy_fee env hw hfees hc
    have hnot : ¬DiscountLost env o true fq fp := fun h => Bool.noConfusion h.1
    simp only [limitBuyExpansion, if_true]
    rw [traderQuote_locked_of_debit _ _ hdebit, hlocked, hafter,
      hold_transient env.market ho.buy, keptLocked_eq_zero hnot, ho.unfilled rfl]
    congr 1
    ring
  | false =>
    have hboth : (getRestingSpotLimitBuyStateExpansion env o fq fp).quoteChangeAmount ≤ 0 ∧
        (getRestingSpotLimitBuyStateExpansion env o fq fp).quoteChangeAmount -
          (getRestingSpotLimitBuyStateExpansion env o fq fp).quoteRefundAmount =
        -(fq * o.orderInfo.price * (1 + max 0 env.market.makerFeeRate)) +
          keptLocked env o false fq fp := by
      rcases lt_or_ge env.market.makerFeeRate 0 with hneg | hpos
      · obtain ⟨hdebit, hlocked⟩ := restingBuy_rebate env hw hfees hneg
        have hnot : ¬DiscountLost env o false fq fp := by
          intro h
          have hlt := h.2.2.1
          rw [discountedMakerFeeRate, discountedTradingFeeRate_of_neg _ hneg] at hlt
          exact lt_irrefl _ hlt
        refine ⟨hdebit, ?_⟩
        rw [hlocked, keptLocked_eq_zero hnot, max_eq_left hneg.le]
        ring
      · obtain ⟨hdebit, hlocked⟩ := restingBuy_fee env hw hc hpos
        refine ⟨hdebit, ?_⟩
        rw [hlocked, max_eq_right hpos]
    simp only [limitBuyExpansion, Bool.false_eq_true, if_false]
    rw [traderQuote_locked_of_debit _ _ hboth.1, hboth.2, hafter, hold_resting env.market ho.buy]
    congr 1
    ring

end Buy

/-! ## The life of a limit buy -/

/-- A limit buy on its way through the batches: what is left of it, whether it is still
    transient, and the quote balance its fills have released so far. -/
structure OrderLife where
  order : SpotLimitOrder ℚ
  isTransient : Bool
  released : ℚ

/-- One batch: the chain state it is settled in, the fill and its price. -/
structure FillEvent where
  env : SpotFillEnv ℚ
  fillQuantity : ℚ
  fillPrice : ℚ

/-- A batch fills the order, releases part of its hold and leaves the rest resting. -/
def OrderLife.step (l : OrderLife) (e : FillEvent) : OrderLife :=
  { order := l.order.filledBy e.fillQuantity
    isTransient := false
    released := l.released -
      ((limitBuyExpansion e.env l.isTransient l.order e.fillQuantity
        e.fillPrice).traderQuoteDepositDelta e.env.market).locked }

/-- A whole life up to the cancellation or the last fill. -/
def OrderLife.run (l : OrderLife) (events : List FillEvent) : OrderLife :=
  events.foldl OrderLife.step l

/-- `RefundSpotLimitOrderCancel`: what cancelling the rest of the order releases. -/
def OrderLife.cancelRefund (market : SpotMarket ℚ) (l : OrderLife) : ℚ :=
  toChainFormat (hold market l.isTransient l.order) market.quoteDecimals

/-- `ReserveSpotLimitOrder`: an accepted buy and the balance charged for it. Post-only
    orders rest at once, all others are transient in their first batch. -/
def placed (order : SpotOrder ℚ) (orderHash : Hash) : OrderLife :=
  { order := getNewSpotLimitOrder order orderHash
    isTransient := !order.orderType.isPostOnly
    released := 0 }

/-- The chain-format amount charged for a placed buy. -/
def charged (market : SpotMarket ℚ) (order : SpotOrder ℚ) : ℚ :=
  toChainFormat (order.getBalanceHoldAndMarginDenom market).1 market.quoteDecimals

/-- The events of a life in one market, every fill within the limit of what is left. -/
def OrderLife.Valid (market : SpotMarket ℚ) : OrderLife → List FillEvent → Prop
  | _, [] => True
  | l, e :: rest =>
    e.env.market = market ∧ e.env.feeDiscountConfig.Valid ∧
      WithinLimit l.order e.fillQuantity e.fillPrice ∧
      OrderLife.Valid market (l.step e) rest

/-- No fill of the life loses its discount. -/
def OrderLife.KeepsDiscounts : OrderLife → List FillEvent → Prop
  | _, [] => True
  | l, e :: rest =>
    ¬DiscountLost e.env l.order l.isTransient e.fillQuantity e.fillPrice ∧
      OrderLife.KeepsDiscounts (l.step e) rest

/-- What all fills of the life leave locked. -/
def OrderLife.keptLocked : OrderLife → List FillEvent → ℚ
  | _, [] => 0
  | l, e :: rest =>
    ExchangeSpotHold.keptLocked e.env l.order l.isTransient e.fillQuantity e.fillPrice +
      OrderLife.keptLocked (l.step e) rest

theorem Booked.step {l : OrderLife} (h : Booked l.order l.isTransient) (e : FillEvent) :
    Booked (l.step e).order (l.step e).isTransient :=
  ⟨h.buy, h.price_pos, fun ht => Bool.noConfusion ht⟩

theorem charged_eq_hold (market : SpotMarket ℚ) (order : SpotOrder ℚ) (orderHash : Hash)
    (hbuy : order.orderType.isBuy = true) :
    charged market order = (placed order orderHash).cancelRefund market := by
  have hlimit : (getNewSpotLimitOrder order orderHash).orderType.isBuy = true := hbuy
  simp only [charged, OrderLife.cancelRefund, placed,
    SpotOrder.getBalanceHoldAndMarginDenom, hbuy, if_true]
  congr 1
  cases order.orderType.isPostOnly with
  | true =>
    rw [if_pos rfl, Bool.not_true, hold_resting market hlimit]
    simp only [getNewSpotLimitOrder, mul_rat]
    split
    · next h => rw [max_eq_right h.le]; ring
    · next h => rw [max_eq_left (not_lt.mp h)]; ring
  | false =>
    rw [if_neg Bool.false_ne_true, Bool.not_false, hold_transient market hlimit]
    simp only [getNewSpotLimitOrder, mul_rat]
    ring

/-- **A STEP**: released amount plus remaining hold only lose what a fill keeps. -/
theorem step_released (market : SpotMarket ℚ) (hfees : ValidFees market) (l : OrderLife)
    (e : FillEvent) (ho : Booked l.order l.isTransient) (hm : e.env.market = market)
    (hc : e.env.feeDiscountConfig.Valid)
    (hw : WithinLimit l.order e.fillQuantity e.fillPrice) :
    (l.step e).released + (l.step e).cancelRefund market +
        toChainFormat (keptLocked e.env l.order l.isTransient e.fillQuantity e.fillPrice)
          market.quoteDecimals =
      l.released + l.cancelRefund market := by
  subst hm
  have hfill := limitBuy_locked e.env hw hfees hc l.isTransient ho
  rw [toChainFormat_add, toChainFormat_sub] at hfill
  simp only [OrderLife.step, OrderLife.cancelRefund]
  rw [hfill]
  ring

/-- **A RUN**: over any sequence of fills and a final cancel, the released amounts are
    the hold the run started with, less what lost discounts keep locked. -/
theorem run_released (market : SpotMarket ℚ) (hfees : ValidFees market)
    (events : List FillEvent) (l : OrderLife) (ho : Booked l.order l.isTransient)
    (hv : l.Valid market events) :
    (l.run events).released + (l.run events).cancelRefund market +
        toChainFormat (l.keptLocked events) market.quoteDecimals =
      l.released + l.cancelRefund market := by
  induction events generalizing l with
  | nil =>
    show l.released + l.cancelRefund market + toChainFormat 0 _ = _
    rw [toChainFormat_zero, add_zero]
  | cons e rest ih =>
    obtain ⟨hm, hc, hw, hrest⟩ := hv
    have hstep := step_released market hfees l e ho hm hc hw
    have hnext := ih (l.step e) (ho.step e) hrest
    show ((l.step e).run rest).released + ((l.step e).run rest).cancelRefund market +
      toChainFormat (_ + _) _ = _
    rw [toChainFormat_add, ← hstep, ← hnext]
    ring

theorem OrderLife.keptLocked_nonneg (events : List FillEvent) (l : OrderLife)
    (ho : Booked l.order l.isTransient) : 0 ≤ l.keptLocked events := by
  induction events generalizing l with
  | nil => exact le_refl 0
  | cons e rest ih =>
    exact add_nonneg (ExchangeSpotHold.keptLocked_nonneg ho.price_pos) (ih (l.step e) (ho.step e))

/-- Nothing is kept exactly when no fill loses its discount: lost amounts are positive
    and never cancel. -/
theorem OrderLife.keptLocked_eq_zero_iff (events : List FillEvent) (l : OrderLife)
    (ho : Booked l.order l.isTransient) :
    l.keptLocked events = 0 ↔ l.KeepsDiscounts events := by
  induction events generalizing l with
  | nil => exact ⟨fun _ => trivial, fun _ => rfl⟩
  | cons e rest ih =>
    show _ + _ = 0 ↔ _ ∧ _
    rw [add_eq_zero_iff_of_nonneg (ExchangeSpotHold.keptLocked_nonneg ho.price_pos)
      (OrderLife.keptLocked_nonneg rest (l.step e) (ho.step e)),
      ExchangeSpotHold.keptLocked_eq_zero_iff ho.price_pos, ih (l.step e) (ho.step e)]

theorem toChainFormat_eq_zero_iff (x : ℚ) (decimals : ℕ) :
    toChainFormat x decimals = 0 ↔ x = 0 := by
  have hten : (10 ^ decimals : ℤ) ≠ 0 := by positivity
  rw [toChainFormat_eq_zsmul, smul_eq_zero_iff_right hten]

/-- **SPOT HOLD ACCOUNTING**: the locked quote balance follows the order's hold through a
    fill exactly when the fill does not lose a discount; over a whole life the released
    amounts never exceed the charge, and they make it up exactly when no fill of the
    life loses a discount. -/
theorem spot_buy_hold_accounting_iff (market : SpotMarket ℚ) (hfees : ValidFees market) :
    (∀ (env : SpotFillEnv ℚ) (isTransient : Bool) (order : SpotLimitOrder ℚ)
        (fillQuantity fillPrice : ℚ) (deltas : SpotDepositDeltas ℚ),
      env.market = market → env.feeDiscountConfig.Valid → Booked order isTransient →
      WithinLimit order fillQuantity fillPrice →
      let e := limitBuyExpansion env isTransient order fillQuantity fillPrice
      let trader := order.orderInfo.subaccountID
      (((e.updateFromDepositDeltas market deltas).quote.get trader).locked -
          (deltas.quote.get trader).locked =
        toChainFormat (hold market false (order.filledBy fillQuantity) -
          hold market isTransient order) market.quoteDecimals ↔
        ¬DiscountLost env order isTransient fillQuantity fillPrice)) ∧
    (∀ (order : SpotOrder ℚ) (orderHash : Hash) (events : List FillEvent),
      order.orderType.isBuy = true → 0 < order.orderInfo.price →
      (placed order orderHash).Valid market events →
      let final := (placed order orderHash).run events
      final.released + final.cancelRefund market ≤ charged market order ∧
        (final.released + final.cancelRefund market = charged market order ↔
          (placed order orderHash).KeepsDiscounts events)) := by
  constructor
  · intro env isTransient order fq fp deltas hm hc ho hw e trader
    subst hm
    have hsub : e.subaccountID = trader := by
      cases isTransient
      · rfl
      · rfl
    rw [← hsub, quote_locked, add_sub_cancel_left,
      limitBuy_locked env hw hfees hc isTransient ho, toChainFormat_add, add_eq_left,
      toChainFormat_eq_zero_iff, keptLocked_eq_zero_iff ho.price_pos]
  · intro order orderHash events hbuy hprice hv final
    have ho : Booked (placed order orderHash).order (placed order orderHash).isTransient :=
      ⟨hbuy, hprice, fun _ => rfl⟩
    have hrun := run_released market hfees events (placed order orderHash) ho hv
    have hstart : (placed order orderHash).released +
        (placed order orderHash).cancelRefund market = charged market order := by
      rw [charged_eq_hold market order orderHash hbuy]
      exact zero_add _
    rw [hstart] at hrun
    have hkept : 0 ≤ toChainFormat ((placed order orderHash).keptLocked events)
        market.quoteDecimals :=
      DecArith.mul_nonneg (OrderLife.keptLocked_nonneg events _ ho) (by rw [newDec_rat]; positivity)
    refine ⟨?_, ?_⟩
    · rw [← hrun]; exact le_add_of_nonneg_right hkept
    · rw [← hrun, left_eq_add, toChainFormat_eq_zero_iff,
        OrderLife.keptLocked_eq_zero_iff events _ ho]

/-- A market with a maker fee of 0.1% and a taker fee of 0.2%. -/
def sampleMarket : SpotMarket ℚ :=
  { makerFeeRate := 1 / 1000, takerFeeRate := 1 / 500, relayerFeeShareRate := 2 / 5
    baseDecimals := 0, quoteDecimals := 0 }

theorem sampleMarket_validFees : ValidFees sampleMarket := by
  refine ⟨?_, ?_, ?_, ?_⟩ <;> norm_num [sampleMarket]

/-- The chain state with a maker discount of the given rate for everybody. -/
def sampleEnv (makerDiscount : ℚ) : SpotFillEnv ℚ :=
  { market := sampleMarket, pointsMultiplier := ⟨1, 1⟩
    feeDiscountConfig :=
      ⟨fun _ isMaker => if isMaker then some makerDiscount else none⟩ }

theorem sampleEnv_valid : (sampleEnv (1 / 2)).feeDiscountConfig.Valid := by
  intro account isMaker r hr
  cases isMaker with
  | true =>
    cases hr
    norm_num
  | false => cases hr

/-- A post-only buy of 2 at 10. -/
def sampleOrder : SpotOrder ℚ :=
  { orderInfo := { subaccountID := 1, feeRecipient := 2, price := 10, quantity := 2,
                   cid := "" }
    orderType := .buyPO }

/-- At a maker discount of one half, two fills release the 20.02 that were charged. -/
theorem spot_buy_hold_accounting_half_discount :
    let events : List FillEvent := [⟨sampleEnv (1 / 2), 1, 9⟩, ⟨sampleEnv (1 / 2), 1, 10⟩]
    let final := (placed sampleOrder 3).run events
    final.released + final.cancelRefund sampleMarket = charged sampleMarket sampleOrder := by
  intro events final
  refine (((spot_buy_hold_accounting_iff sampleMarket sampleMarket_validFees).2 sampleOrder
    3 events rfl ?_ ?_).2).mpr ?_
  · norm_num [sampleOrder]
  · refine ⟨rfl, sampleEnv_valid, ⟨?_, ?_, ?_, ?_⟩, rfl, sampleEnv_valid, ⟨?_, ?_, ?_, ?_⟩,
      trivial⟩ <;>
      norm_num [events, placed, getNewSpotLimitOrder, sampleOrder, OrderLife.step,
        SpotLimitOrder.filledBy]
  · refine ⟨?_, ?_, trivial⟩
    · decide +kernel
    · decide +kernel

/-- At a maker discount of one, a fill of 2 at 10 charges no fee and refunds none: of the
    20.02 that were charged only 20 come back, and no order is left to release the
    rest. -/
theorem full_discount_stays_locked :
    let final := (placed sampleOrder 3).run [⟨sampleEnv 1, 2, 10⟩]
    final.order.fillable = 0 ∧ charged sampleMarket sampleOrder = 1001 / 50 ∧
      final.released + final.cancelRefund sampleMarket = 20 := by
  decide +kernel

end ExchangeSpotHold
