import InjectiveCore.ExchangeMarketBookProofs

/-!
# The closing check — does a fill close a position within its funds?

Before an order that closes a position is matched, its price is compared with the
**bankruptcy price** of the position, at which the margin is used up
(`CheckValidPositionToReduce`). Settlement later pays out the closed part, and drops a
negative payout from the market balance (`getMarketBalanceDelta`), so that a fill which
closes beyond the margin loses value. The check reads the position cache, which follows the
fills in the order they are matched; settlement reads the position states, and goes through
the fills side by side. The two positions of a subaccount need not be the same.

- `closing_payout` writes the payout of a close as the distance of the execution price
  from the bankruptcy price, with exact arithmetic.
- The check adds the margin of the order to that of the position. A reduce-only order
  has none, and pays its fee out of the payout; for it the check is what is needed
  (`reduceOnly_covered`), if the position it looked at is the one that is settled.
- The margin of any other order is returned next to the payout and not inside of it.
  `close_conserves_iff` says which fills lose nothing.
-/

namespace ExchangePosition

open DecArith ExchangeFees

variable {D : Type} [DecArith D]

/-! ## Bankruptcy price -/

/-- `getFundingAdjustedUnitMarginWithAddedMargin`. -/
def Position.getFundingAdjustedUnitMarginWithAddedMargin (p : Position D)
    (funding : Option (PerpetualMarketFunding D)) (addedMargin : D) : D :=
  quo (p.getFundingAdjustedMarginWithAddedMargin funding addedMargin) p.quantity

/-- `getLiquidationPriceWithAddedMargin`. -/
def Position.getLiquidationPriceWithAddedMargin (p : Position D)
    (maintenanceMarginRatio : D) (funding : Option (PerpetualMarketFunding D))
    (addedMargin : D) : D :=
  let adjustedUnitMargin := p.getFundingAdjustedUnitMarginWithAddedMargin funding addedMargin
  if p.isLong then quo (p.entryPrice - adjustedUnitMargin) (one - maintenanceMarginRatio)
  else quo (p.entryPrice + adjustedUnitMargin) (one + maintenanceMarginRatio)

/-- `GetLiquidationPrice`. -/
def Position.getLiquidationPrice (p : Position D) (maintenanceMarginRatio : D)
    (funding : Option (PerpetualMarketFunding D)) : D :=
  p.getLiquidationPriceWithAddedMargin maintenanceMarginRatio funding 0

/-- `GetBankruptcyPriceWithAddedMargin`. -/
def Position.getBankruptcyPriceWithAddedMargin (p : Position D)
    (funding : Option (PerpetualMarketFunding D)) (addedMargin : D) : D :=
  p.getLiquidationPriceWithAddedMargin 0 funding addedMargin

/-- `GetBankruptcyPrice`. -/
def Position.getBankruptcyPrice (p : Position D)
    (funding : Option (PerpetualMarketFunding D)) : D :=
  p.getLiquidationPrice 0 funding

/-- The errors of the closing check. -/
inductive ClosingError where
  | invalidReduceOnlyPositionDirection
  | priceSurpassesBankruptcyPrice
  deriving DecidableEq, Repr

/-- `checkValidClosingPrice`. -/
def Position.checkValidClosingPrice (p : Position D) (closingPrice tradeFeeRate : D)
    (funding : Option (PerpetualMarketFunding D)) (orderMargin : D) : Option ClosingError :=
  let bankruptcyPrice := p.getBankruptcyPriceWithAddedMargin funding orderMargin
  if p.isLong then
    if closingPrice < quo bankruptcyPrice (one - tradeFeeRate) then
      some .priceSurpassesBankruptcyPrice
    else none
  else
    if quo bankruptcyPrice (one + tradeFeeRate) < closingPrice then
      some .priceSurpassesBankruptcyPrice
    else none

/-- `CheckValidPositionToReduce`. -/
def Position.checkValidPositionToReduce (p : Position D) (marketType : MarketType)
    (reducePrice : D) (isBuyOrder : Bool) (tradeFeeRate : D)
    (funding : Option (PerpetualMarketFunding D)) (orderMargin : D) : Option ClosingError :=
  if isBuyOrder = p.isLong then some .invalidReduceOnlyPositionDirection
  else if marketType = .binaryOption then none
  else p.checkValidClosingPrice reducePrice tradeFeeRate funding orderMargin

/-! ## Exact arithmetic -/

section Exact

variable (p : Position ℚ) (funding : Option (PerpetualMarketFunding ℚ))

theorem fundingAdjusted_applyFunding (addedMargin : ℚ) :
    (p.applyFunding funding).getFundingAdjustedMarginWithAddedMargin funding addedMargin =
      (p.applyFunding funding).margin + addedMargin := by
  cases funding with
  | none => rfl
  | some f =>
    simp only [Position.applyFunding, Position.getFundingAdjustedMarginWithAddedMargin,
      Option.getD_some, sub_self, mul_rat, mul_zero, sub_zero, add_zero, ite_self]

theorem bankruptcyPrice_applyFunding (addedMargin : ℚ) :
    let q := p.applyFunding funding
    q.getBankruptcyPriceWithAddedMargin funding addedMargin =
      if q.isLong then q.entryPrice - (q.margin + addedMargin) / q.quantity
      else q.entryPrice + (q.margin + addedMargin) / q.quantity := by
  intro q
  simp only [Position.getBankruptcyPriceWithAddedMargin,
    Position.getLiquidationPriceWithAddedMargin,
    Position.getFundingAdjustedUnitMarginWithAddedMargin, one_rat, quo_rat, sub_zero,
    add_zero, div_one]
  rw [fundingAdjusted_applyFunding]

theorem splitPositionMargin_closed {m q c : ℚ} (hc : 0 < c) (hq : 0 < q) :
    (splitPositionMargin m q c).1 = c * (m / q) := by
  rw [splitPositionMargin, if_neg (by simp [hc.ne', hq.ne'])]
  split
  · next h => rw [h, mul_div_cancel₀ _ hq.ne']
  · simp only [mul_rat, quo_rat]
    field_simp
    ring

/-- **THE PAYOUT OF A CLOSE**: the distance of the execution price from the bankruptcy
    price, for the closed quantity, less the fee of a fill without margin. -/
theorem closing_payout (delta : PositionDelta ℚ) (fee : ℚ)
    (hdir : delta.isLong ≠ p.isLong) (hp : 0 < p.quantity)
    (hd : 0 < delta.executionQuantity) :
    let q := p.applyFunding funding
    let c := min q.quantity delta.executionQuantity
    (q.applyPositionDelta delta fee).payout =
      (if q.isLong then c * (delta.executionPrice - q.getBankruptcyPrice funding)
        else c * (q.getBankruptcyPrice funding - delta.executionPrice)) -
        (if delta.executionMargin = 0 then fee else 0) := by
  intro q c
  have hq : 0 < q.quantity := by rwa [applyFunding_quantity]
  have hc : 0 < c := lt_min hq hd
  have horiented : q.oriented delta = q := if_neg hq.ne'
  have hopposed : ¬q.isLong = delta.isLong := by
    rw [applyFunding_isLong]; exact fun h => hdir h.symm
  have hbankruptcy : q.getBankruptcyPrice funding =
      if q.isLong then q.entryPrice - q.margin / q.quantity
      else q.entryPrice + q.margin / q.quantity := by
    have h := bankruptcyPrice_applyFunding p funding 0
    simp only [add_zero] at h
    exact h
  simp only [Position.applyPositionDelta, horiented, if_neg hopposed]
  rw [splitPositionMargin_closed hc hq, hbankruptcy, Position.getPayoutFromPnl]
  cases q.isLong
  · simp only [Bool.false_eq_true, if_false, mul_rat]; ring
  · simp only [if_true, mul_rat]; ring

theorem opening_payout (delta : PositionDelta ℚ) (fee : ℚ)
    (h : p.quantity = 0 ∨ delta.isLong = p.isLong) :
    (p.applyPositionDelta delta fee).payout = 0 := by
  have hdir : (p.oriented delta).isLong = delta.isLong := by
    rw [Position.oriented]
    split
    · rfl
    · next h0 => exact (h.resolve_left h0).symm
  simp only [Position.applyPositionDelta, if_pos hdir]

end Exact

end ExchangePosition

namespace ExchangeClosingCheck

open DecArith ExchangePosition ExchangeFees ExchangeDerivativeFill ExchangeMatchState
  ExchangeDerivativeBook ExchangeMarketBook

variable {R D : Type} [DecArith D]

/-! ## Fills -/

/-- `CheckValidPositionToReduce` of the risk engine: the isolated and the cross margin
    model both ask the position, and answer whether the check fails. -/
def checkValidPositionToReduce (env : FillEnv D) (_risk : R) (_subaccountID : Hash)
    (position : Position D) (orderPrice : D) (isBuy : Bool)
    (tradeFeeRate closeExecutionMargin : D) : Bool :=
  (position.checkValidPositionToReduce env.market.marketType orderPrice isBuy tradeFeeRate
    env.funding closeExecutionMargin).isSome

/-- A fill outside of a liquidation: of the quantity that was left of an order when it
    was checked, some is executed. `isTransient` is read for limit orders. -/
structure Fill (D : Type) where
  order : IDerivativeOrder D
  isTransient : Bool
  remainingFillable : D
  fillQuantity : D
  executionPrice : D
  deriving DecidableEq, Repr

namespace Fill

/-- The side of the order. -/
def isBuy (f : Fill D) : Bool := f.order.orderType.isBuy

/-- An order without margin only reduces a position. -/
def isReduceOnly (f : Fill D) : Bool := decide (f.order.margin = 0)

/-- The fee rate of the fill, in the check and in the settlement. -/
def tradeFeeRate (E : MatchEnv R D) (f : Fill D) : D :=
  match f.order with
  | .limit _ => limitTradeFeeRate E.fill.market f.isTransient false
  | .market order => MarketOrderbook.getTradeFeeRate E order

/-- The settlement of the fill. -/
def expansion (E : MatchEnv R D) (states : PositionStates D) (f : Fill D) :
    DerivativeOrderStateExpansion D :=
  match f.order with
  | .limit order =>
    (applyPositionDeltaAndGetDerivativeLimitOrderStateExpansion E.fill states
      order.orderType.isBuy f.isTransient false order f.fillQuantity
      (some f.executionPrice)).1
  | .market order =>
    (applyPositionDeltaAndGetDerivativeMarketOrderStateExpansion E.fill states order
      f.fillQuantity f.executionPrice (f.tradeFeeRate E)
      E.fill.tradeRewardMultiplierConfig.takerPointsMultiplier).1

/-- The fee the trader is charged. -/
def traderFee (E : MatchEnv R D) (f : Fill D) : D :=
  (getTradeData E.fill.feeDiscountConfig f.order.subaccountID f.fillQuantity
    f.executionPrice (f.tradeFeeRate E) E.fill.market.relayerFeeShareRate 0
    (match f.order with
      | .limit _ => !f.isTransient
      | .market _ => false)).traderFee

/-- What the fill does to the position. -/
def positionDelta (f : Fill D) : PositionDelta D :=
  { isLong := f.isBuy
    executionQuantity := f.fillQuantity
    executionMargin := quo (mul f.order.margin f.fillQuantity) f.order.orderInfo.quantity
    executionPrice := f.executionPrice }

/-- The matching-time check of `shouldSkipForClosingPosition` and `advanceNewOrder`
    lets the order pass. -/
def PassesClosingCheck (E : MatchEnv R D) (risk : R) (position : Position D) (f : Fill D) :
    Prop :=
  (f.isReduceOnly = true →
      isValidReduceOnlyOrder position f.isBuy f.remainingFillable = true) ∧
    failsClosingCheck E risk f.order f.isBuy position f.remainingFillable
      (f.tradeFeeRate E) = false

/-- The closed part is covered by the margin of the position alone: at the execution
    price, and less a fee taken from the payout, it is not worth less than at the
    bankruptcy price. -/
def CoveredByPosition (E : MatchEnv R D) (position : Position D) (f : Fill D) : Prop :=
  f.isBuy ≠ position.isLong → 0 < position.quantity →
    let c := min position.quantity f.fillQuantity
    let bankruptcyPrice := position.getBankruptcyPrice E.fill.funding
    let fee := if f.isReduceOnly then f.traderFee E else 0
    if position.isLong then mul c bankruptcyPrice + fee ≤ mul c f.executionPrice
    else mul c f.executionPrice + fee ≤ mul c bankruptcyPrice

/-- The value identity of the fill, with nothing dropped. -/
def ConservesValue (E : MatchEnv R D) (states : PositionStates D) (f : Fill D) : Prop :=
  let e := f.expansion E states
  0 ≤ e.payout ∧
    e.totalBalanceDelta + e.feeRecipientReward + e.auctionFeeReward +
      e.marketBalanceDelta = 0

end Fill

/-- A fill in a perpetual or expiry market: its order passed the closing check against the
    cached position, it is executed at a price no worse than that of the order, and it is
    settled against a position with its funding applied. -/
structure Matched (E : MatchEnv R D) (risk : R) (cached : Position D)
    (states : PositionStates D) (position : Position D) (f : Fill D) : Prop where
  marketType : E.fill.market.marketType = .perpetual ∨ E.fill.market.marketType = .expiry
  riskEngine : E.riskEngine.checkValidPositionToReduce = checkValidPositionToReduce E.fill
  discounts : E.fill.feeDiscountConfig.Valid
  state : states f.order.subaccountID = some (position.applyFunding E.fill.funding)
  position_nonneg : 0 ≤ position.quantity
  orderQuantity_pos : 0 < f.order.orderInfo.quantity
  fill_pos : 0 < f.fillQuantity
  fill_le : f.fillQuantity ≤ f.remainingFillable
  price_nonneg : 0 ≤ f.executionPrice
  price : if f.isBuy then f.executionPrice ≤ f.order.orderInfo.price
    else f.order.orderInfo.price ≤ f.executionPrice
  check : f.PassesClosingCheck E risk cached

/-! ## The settlement of a fill -/

theorem traderFee_multiplier (config : FeeDiscountConfig D) (s : Hash)
    (q price rate share m m' : D) (isMaker : Bool) :
    (getTradeData config s q price rate share m isMaker).traderFee =
      (getTradeData config s q price rate share m' isMaker).traderFee := by
  simp only [getTradeData]
  split <;> rfl

theorem expansion_payout {E : MatchEnv R D} {risk : R} {states : PositionStates D}
    {cached position : Position D} {f : Fill D} (h : Matched E risk cached states position f) :
    (f.expansion E states).payout =
      ((position.applyFunding E.fill.funding).applyPositionDelta f.positionDelta
        (f.traderFee E)).payout := by
  have hbinary : E.fill.market.marketType ≠ .binaryOption := by
    rcases h.marketType with hm | hm <;> rw [hm] <;> decide
  obtain ⟨order, isTransient, remaining, q, price⟩ := f
  have hstate := h.state
  have hq : 0 < q := h.fill_pos
  cases order with
  | limit order =>
    have hposition : fillPositionStateCache E.fill states order.orderInfo.subaccountID
        order.orderType.isBuy = position.applyFunding E.fill.funding := by
      rw [fillPositionStateCache, show states order.orderInfo.subaccountID = _ from hstate]
    simp only [Fill.expansion, applyPositionDeltaAndGetDerivativeLimitOrderStateExpansion,
      Option.getD_some, if_pos hq, hposition, limitExecutionMargin, if_pos hbinary,
      Position.applyPositionDelta?]
    rw [traderFee_multiplier _ _ _ _ _ _ _ 0]
    rfl
  | market order =>
    have hposition : fillPositionStateCache E.fill states order.orderInfo.subaccountID
        order.orderType.isBuy = position.applyFunding E.fill.funding := by
      rw [fillPositionStateCache, show states order.orderInfo.subaccountID = _ from hstate]
    simp only [Fill.expansion, applyPositionDeltaAndGetDerivativeMarketOrderStateExpansion,
      if_pos hq, hposition, marketExecutionMargin, if_neg hbinary,
      Position.applyPositionDelta?]
    rw [traderFee_multiplier _ _ _ _ _ _ _ 0]
    rfl

theorem expansion_conserves (E : MatchEnv R D) (states : PositionStates D) (f : Fill D) :
    (f.expansion E states).Conserves := by
  rw [Fill.expansion]
  split
  · exact limitExpansion_conserves ..
  · exact marketExpansion_conserves ..

theorem conservesValue_iff (E : MatchEnv R D) (states : PositionStates D) (f : Fill D) :
    f.ConservesValue E states ↔ 0 ≤ (f.expansion E states).payout := by
  have hconserves := expansion_conserves E states f
  rw [DerivativeOrderStateExpansion.Conserves] at hconserves
  constructor
  · exact fun h => h.1
  · intro h
    exact ⟨h, by rw [hconserves, min_eq_right h]⟩

/-! ## What the check is worth -/

section Exact

variable {E : MatchEnv R ℚ} {risk : R} {states : PositionStates ℚ}
  {cached position : Position ℚ} {f : Fill ℚ}

section Settlement

variable (h : Matched E risk cached states position f)
include h

theorem executionMargin_eq_zero_iff :
    f.positionDelta.executionMargin = 0 ↔ f.isReduceOnly = true := by
  simp only [Fill.positionDelta, Fill.isReduceOnly, mul_rat, quo_rat, decide_eq_true_eq,
    div_eq_zero_iff, mul_eq_zero, h.fill_pos.ne', h.orderQuantity_pos.ne', or_false]

theorem payout_nonneg_iff_covered :
    0 ≤ (f.expansion E states).payout ↔
      f.CoveredByPosition E (position.applyFunding E.fill.funding) := by
  rw [expansion_payout h]
  by_cases hclose : f.isBuy ≠ position.isLong ∧ 0 < position.quantity
  · obtain ⟨hdir, hp⟩ := hclose
    have hfee : (if f.positionDelta.executionMargin = 0 then f.traderFee E else 0) =
        if f.isReduceOnly = true then f.traderFee E else 0 :=
      if_congr (executionMargin_eq_zero_iff h) rfl rfl
    rw [closing_payout position E.fill.funding f.positionDelta _ hdir hp h.fill_pos, hfee,
      Fill.CoveredByPosition, applyFunding_isLong, applyFunding_quantity]
    simp only [mul_rat, ne_eq, hdir, hp, not_false_eq_true, true_implies, Fill.positionDelta]
    cases position.isLong
    · simp only [Bool.false_eq_true, if_false]
      rw [mul_sub]
      constructor <;> intro hle <;> linarith
    · simp only [if_true]
      rw [mul_sub]
      constructor <;> intro hle <;> linarith
  · have hopen : (position.applyFunding E.fill.funding).quantity = 0 ∨
        f.positionDelta.isLong = (position.applyFunding E.fill.funding).isLong := by
      rw [applyFunding_isLong, applyFunding_quantity]
      rcases not_and_or.mp hclose with hsame | hnone
      · exact Or.inr (not_not.mp hsame)
      · exact Or.inl (le_antisymm (not_lt.mp hnone) h.position_nonneg)
    rw [opening_payout _ _ _ hopen]
    refine ⟨fun _ hdir hp => ?_, fun _ => le_refl 0⟩
    rw [applyFunding_isLong] at hdir
    rw [applyFunding_quantity] at hp
    exact absurd ⟨hdir, hp⟩ hclose

theorem traderFee_le (hrate : 0 ≤ f.tradeFeeRate E) :
    f.traderFee E ≤ f.fillQuantity * f.executionPrice * f.tradeFeeRate E := by
  have hnotional : 0 ≤ f.fillQuantity * f.executionPrice := mul_nonneg h.fill_pos.le h.price_nonneg
  simp only [Fill.traderFee, getTradeData, if_neg h.fill_pos.ne', getOrderFillFeeInfo, mul_rat]
  set discounted := discountedTradingFeeRate E.fill.feeDiscountConfig (f.tradeFeeRate E) _ _
    with hdiscounted
  obtain ⟨hpos, hle⟩ : 0 ≤ discounted ∧ discounted ≤ f.tradeFeeRate E :=
    discountedTradingFeeRate_bounds _ h.discounts hrate _ _
  rw [if_neg (not_lt.mpr (mul_nonneg hnotional hpos))]
  exact mul_le_mul_of_nonneg_left hle hnotional

end Settlement

section Check

variable (h : Matched E risk (position.applyFunding E.fill.funding) states position f)
include h

theorem closingPrice_of_check (hdir : f.isBuy ≠ position.isLong) (hp : 0 < position.quantity)
    (hreduce : f.isReduceOnly = true) (hrate : 0 ≤ f.tradeFeeRate E)
    (hrate' : f.tradeFeeRate E < 1) : let bankruptcyPrice :=
      (position.applyFunding E.fill.funding).getBankruptcyPrice E.fill.funding
    if position.isLong then
      bankruptcyPrice ≤ f.order.orderInfo.price * (1 - f.tradeFeeRate E)
    else f.order.orderInfo.price * (1 + f.tradeFeeRate E) ≤ bankruptcyPrice := by
  intro bankruptcyPrice
  have hbinary : E.fill.market.marketType ≠ .binaryOption := by
    rcases h.marketType with hm | hm <;> rw [hm] <;> decide
  have hmargin : f.order.margin = 0 := of_decide_eq_true hreduce
  have hcheck := h.check.2
  simp only [failsClosingCheck, h.riskEngine, checkValidPositionToReduce,
    Position.checkValidPositionToReduce, applyFunding_isLong, applyFunding_quantity, hmargin,
    mul_rat, quo_rat, zero_mul, zero_div, if_neg hdir, if_neg hbinary,
    Position.checkValidClosingPrice, one_rat] at hcheck
  have hclosing : decide (f.order.orderType.isBuy ≠ position.isLong ∧ 0 < position.quantity) =
      true := decide_eq_true ⟨hdir, hp⟩
  rw [hclosing, Bool.true_and] at hcheck
  change _ = false at hcheck
  cases hlong : position.isLong
  · rw [hlong] at hcheck
    simp only [Bool.false_eq_true, if_false] at hcheck ⊢
    split at hcheck
    · exact nomatch hcheck
    rename_i hprice
    rw [not_lt, le_div_iff₀ (by linarith)] at hprice
    exact hprice
  · rw [hlong] at hcheck
    simp only [if_true] at hcheck ⊢
    split at hcheck
    · exact nomatch hcheck
    rename_i hprice
    rw [not_lt, div_le_iff₀ (by linarith)] at hprice
    exact hprice

/-- **REDUCE-ONLY**: without a rebate the check is enough, for the position it looked at. -/
theorem reduceOnly_covered (hreduce : f.isReduceOnly = true) (hrate : 0 ≤ f.tradeFeeRate E)
    (hrate' : f.tradeFeeRate E < 1) :
    f.CoveredByPosition E (position.applyFunding E.fill.funding) := by
  intro hdir hp
  rw [applyFunding_isLong] at hdir
  rw [applyFunding_quantity] at hp
  have hcheck := closingPrice_of_check h hdir hp hreduce hrate hrate'
  have hfee := traderFee_le h hrate
  have hprice := h.price
  have hall : f.fillQuantity ≤ position.quantity := by
    have hvalid := h.check.1 hreduce
    simp only [isValidReduceOnlyOrder, applyFunding_isLong, if_neg hdir,
      applyFunding_quantity] at hvalid
    split at hvalid
    · exact nomatch hvalid
    · next hle => exact h.fill_le.trans (not_lt.mp hle)
  simp only [applyFunding_isLong, applyFunding_quantity, min_eq_right hall, hreduce, if_true,
    mul_rat]
  cases hlong : position.isLong
  · -- a short position is bought back: price and fee stay below the bankruptcy price
    rw [hlong] at hcheck hdir
    have hbuy : f.isBuy = true := by simpa using hdir
    rw [hbuy, if_pos rfl] at hprice
    simp only [Bool.false_eq_true, if_false] at hcheck ⊢
    have hscaled := mul_le_mul_of_nonneg_left
      ((mul_le_mul_of_nonneg_right hprice (by linarith : 0 ≤ 1 + f.tradeFeeRate E)).trans
        hcheck) h.fill_pos.le
    linarith
  · -- a long position is sold: what is left of the price stays above it
    rw [hlong] at hcheck hdir
    have hsell : f.isBuy = false := by simpa using hdir
    rw [hsell, if_neg Bool.false_ne_true] at hprice
    simp only [if_true] at hcheck ⊢
    have hscaled := mul_le_mul_of_nonneg_left
      (hcheck.trans (mul_le_mul_of_nonneg_right hprice
        (by linarith : 0 ≤ 1 - f.tradeFeeRate E))) h.fill_pos.le
    linarith

end Check

end Exact

/-- **WHICH CLOSES LOSE NOTHING**: with exact arithmetic a matched fill has a non-negative
    payout and conserves value exactly when the own margin of the position it is settled
    against covers it. A reduce-only fill at a fee rate in `[0, 1)` is covered if that position
    is the one its check looked at. -/
theorem close_conserves_iff (E : MatchEnv R ℚ) (risk : R) (cached : Position ℚ)
    (states : PositionStates ℚ) (position : Position ℚ) (f : Fill ℚ)
    (h : Matched E risk cached states position f) :
    (f.ConservesValue E states ↔
      f.CoveredByPosition E (position.applyFunding E.fill.funding)) ∧
    (cached = position.applyFunding E.fill.funding → f.isReduceOnly = true →
      0 ≤ f.tradeFeeRate E → f.tradeFeeRate E < 1 → f.ConservesValue E states) := by
  have hiff : f.ConservesValue E states ↔
      f.CoveredByPosition E (position.applyFunding E.fill.funding) := by
    rw [conservesValue_iff, payout_nonneg_iff_covered h]
  refine ⟨hiff, ?_⟩
  rintro rfl hreduce hrate hrate'
  exact hiff.mpr (reduceOnly_covered h hreduce hrate hrate')

/-- A perpetual market with a taker fee of 0.2 percent. -/
def sampleFillEnv : FillEnv ℚ where
  market :=
    { marketType := .perpetual, makerFeeRate := 1 / 1000, takerFeeRate := 1 / 500
      relayerFeeShareRate := 2 / 5, oracleScaleFactor := 0, quoteDecimals := 6
      initialMarginRatio := 1 / 10, openNotionalCap := .uncapped }
  funding := some ⟨0⟩
  tradeRewardMultiplierConfig := ⟨1, 1⟩
  feeDiscountConfig := .none
  isCrossMargin := fun _ => false
  getPosition := fun _ => none

/-- The market at a mark price of 100, with the closing check of the risk engine. -/
def sampleEnv : MatchEnv Unit ℚ where
  fill := sampleFillEnv
  markPrice := some 100
  currentOpenNotional := 0
  atomicExecutionFeeMultiplier := 2
  riskEngine :=
    { checkCrossMarginEmergencyPause := fun _ _ => false
      decrementLastLookOLR := fun _ _ _ => ()
      checkValidPositionToReduce := checkValidPositionToReduce sampleFillEnv
      shouldSkipDerivativeOrderForMarginRequirement := fun _ _ _ => (false, ()) }
  quantity_nonneg := nofun
  markPrice_nonneg := by norm_num

/-- A long of 1, entered at 100 with a margin of 10. -/
def tenfoldLong : Position ℚ :=
  { isLong := true, quantity := 1, entryPrice := 100, margin := 10
    cumulativeFundingEntry := some 0 }

/-- A market order that sells 1, filled at its worst price. -/
def sampleSell (price margin : ℚ) : Fill ℚ where
  order := .market
    { orderInfo := { subaccountID := 1, feeRecipient := 0, price := price, quantity := 1
                     cid := "" }
      orderType := .sell, margin := margin, marginHold := margin, orderHash := 1 }
  isTransient := false
  remainingFillable := 1
  fillQuantity := 1
  executionPrice := price

theorem sampleSell_matched {price margin : ℚ} (hprice : 0 ≤ price)
    (hcheck : (sampleSell price margin).PassesClosingCheck sampleEnv ()
      (tenfoldLong.applyFunding sampleFillEnv.funding)) :
    Matched sampleEnv () (tenfoldLong.applyFunding sampleFillEnv.funding)
      (fun _ => some (tenfoldLong.applyFunding sampleFillEnv.funding))
      tenfoldLong (sampleSell price margin) where
  marketType := Or.inl rfl
  riskEngine := rfl
  discounts := FeeDiscountConfig.none_valid
  state := rfl
  position_nonneg := zero_le_one
  orderQuantity_pos := one_pos
  fill_pos := one_pos
  fill_le := le_refl _
  price_nonneg := hprice
  price := le_refl price
  check := hcheck

/-- Sold reduce-only at 95, the long returns its remaining 5 less the fee. -/
theorem close_conserves_iff_sample :
    (sampleSell 95 0).ConservesValue sampleEnv
      (fun _ => some (tenfoldLong.applyFunding sampleFillEnv.funding)) :=
  (close_conserves_iff sampleEnv () _ _ tenfoldLong (sampleSell 95 0)
    (sampleSell_matched (by norm_num) ⟨by decide +kernel, by decide +kernel⟩)).2 rfl
    (by decide +kernel) (by decide +kernel) (by decide +kernel)

/-- With a margin of 20 the same order passes the check at 85, below the bankruptcy price
    of 90. The trader pays 5 that are credited to nobody. -/
theorem order_margin_hides_loss :
    let f := sampleSell 85 20
    let states := fun _ => some (tenfoldLong.applyFunding sampleFillEnv.funding)
    let e := f.expansion sampleEnv states
    Matched sampleEnv () (tenfoldLong.applyFunding sampleFillEnv.funding) states tenfoldLong f ∧
      e.payout = -5 ∧
      e.totalBalanceDelta + e.feeRecipientReward + e.auctionFeeReward +
        e.marketBalanceDelta = -5 := by
  refine ⟨sampleSell_matched (by norm_num) ⟨by decide +kernel, by decide +kernel⟩, ?_, ?_⟩
  · decide +kernel
  · decide +kernel

end ExchangeClosingCheck
