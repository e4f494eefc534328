import InjectiveCore.ExchangeCrossSnapshotProofs
import InjectiveCore.ExchangePositionEquityProofs

/-!
# Cross-margin admission — orders that were admitted can be filled

An order is admitted to a cross-margin pool when the pool's equity, with profits cut by a
haircut, covers the order lock requirement with it (`risk/cross/model.go`).

What the snapshot calls the worst case is the worst case, as long as the fee of a sale is at
most its price. A fill moves four numbers at once: the balance, the position's margin, its
profit at the mark price and the lock of the order. `PoolMarket.slack` is what a market adds
to equity over what it locks; no fill lowers it together with the balance
(`MarketFill.slack_le`), so along every run of fills the equity stays above the lock, and the
lock above the initial margin (`admission_sound`).

An atomic sale pays the rate times a multiplier. Where that is more than one, a better price
costs more in fees than it brings, and the lock, which is for the limit price, is too small
(`atomic_sale_liquidatable`).
-/

namespace ExchangeCrossAdmission

open DecArith ExchangePosition ExchangeFees ExchangeDerivativeFill

variable {D : Type} [DecArith D]

/-! ## Admission -/

/-- Why an order is not admitted. -/
inductive AdmissionError where
  | maintenanceCheckFailed
  | admissionCheckFailed
  deriving DecidableEq, Repr

/-- The order lock requirement with one more order in a market. -/
def orderLockAfter (pool : CrossPool D) (m : PoolMarket D) (isBuy : Bool)
    (px qty feeRateWorst : D) : D :=
  let signedPosQty := (m.position.map (·.getSignedPositionQuantity)).getD 0
  let buyQty := m.openQuantity true
  let sellQty := m.openQuantity false
  let absWorstBefore := computeAbsWorstExposure signedPosQty buyQty sellQty
  let absWorstAfter :=
    if isBuy then computeAbsWorstExposure signedPosQty (buyQty + qty) sellQty
    else computeAbsWorstExposure signedPosQty buyQty (sellQty + qty)
  let deltaAbsWorst :=
    if absWorstAfter - absWorstBefore < 0 then 0 else absWorstAfter - absWorstBefore
  let deltaIMWithOrders := mul (mul m.market.initialMarginRatio m.markPrice) deltaAbsWorst
  pool.snapshot.orderLockRequirement + deltaIMWithOrders +
    computeEntryLoss isBuy px m.markPrice qty + mul (mul feeRateWorst px) qty

/-- The checks of `ReserveDerivativeOrderMargin` on the snapshot, for a vanilla order that
    is not conditional. -/
def reserveDerivativeOrderMargin (pool : CrossPool D) (m : PoolMarket D) (isBuy : Bool)
    (px qty atomicMul : D) : Except AdmissionError D :=
  let after := orderLockAfter pool m isBuy px qty (worstCaseFeeRate m.market atomicMul)
  if pool.snapshot.equityLiquidation < pool.snapshot.maintenanceMarginTotal then
    .error .maintenanceCheckFailed
  else if pool.snapshot.equityAdmission < after then .error .admissionCheckFailed
  else .ok after

/-- Place a limit order. -/
def PoolMarket.placeLimitOrder (m : PoolMarket D) (isBuy : Bool)
    (o : DerivativeLimitOrder D) : PoolMarket D :=
  { m with limitOrders := Function.update m.limitOrders isBuy (m.limitOrders isBuy ++ [o]) }

/-! ## Fills -/

/-- A fill: how much, at which price, and the fee paid for it. -/
structure Fill (D : Type) where
  quantity : D
  price : D
  fee : D

/-- A fill of an order that is open for `remaining`: not more, at no worse price, for no
    higher fee rate. -/
structure Fill.Admitted (f : Fill D) (isBuy : Bool) (limitPrice remaining feeRate : D) :
    Prop where
  quantity_pos : 0 < f.quantity
  quantity_le : f.quantity ≤ remaining
  price : if isBuy then f.price ≤ limitPrice else limitPrice ≤ f.price
  fee : f.fee ≤ mul (mul feeRate f.price) f.quantity

namespace PoolMarket

/-- The position a fill finds, with funding applied. -/
def initializedPosition (m : PoolMarket D) (isBuy : Bool) : Position D :=
  (m.position.getD (newPosition isBuy (m.funding.map (·.cumulativeFunding)))).applyFunding
    m.funding

/-- The fill of a position (`ApplyPositionDelta`). -/
def fillPosition (m : PoolMarket D) (isBuy : Bool) (executionMargin : D) (f : Fill D) :
    PositionUpdate D :=
  (m.initializedPosition isBuy).applyPositionDelta
    { isLong := isBuy, executionQuantity := f.quantity, executionMargin := executionMargin
      executionPrice := f.price } f.fee

/-- Save a position; an empty one is deleted. -/
def withPosition (m : PoolMarket D) (position : Position D) : PoolMarket D :=
  { m with position := if position.quantity = 0 then none else some position }

end PoolMarket

/-- What a fill changes in a deposit on cross margin. -/
def depositChange (update : PositionUpdate D) (fee : D) : D :=
  update.payout - (update.collateralizationMargin + fee)

namespace PoolMarket

/-- Fill a limit order, which stays open for the rest: the change of the deposit, and the
    market. -/
def fillLimitOrder (m : PoolMarket D) (isBuy : Bool)
    (before after : List (DerivativeLimitOrder D)) (o : DerivativeLimitOrder D)
    (f : Fill D) : D × PoolMarket D :=
  let update := m.fillPosition isBuy (limitExecutionMargin m.market o f.quantity f.price).1 f
  (depositChange update f.fee,
    { m.withPosition update.position with
      limitOrders := Function.update m.limitOrders isBuy
        (before ++ { o with fillable := o.fillable - f.quantity } :: after) })

/-- Fill a market order, which is gone afterwards. -/
def fillMarketOrder (m : PoolMarket D) (isBuy : Bool) (o : DerivativeMarketOrder D)
    (f : Fill D) : D × PoolMarket D :=
  let update := m.fillPosition isBuy (marketExecutionMargin m.market o f.quantity f.price) f
  (depositChange update f.fee,
    { m.withPosition update.position with
      marketOrder := Function.update m.marketOrder isBuy none })

end PoolMarket

/-- A fill of one of the vanilla orders of a market. -/
inductive MarketFill (m : PoolMarket D) : D × PoolMarket D → Prop where
  | limit (isBuy : Bool) (before after : List (DerivativeLimitOrder D))
      (o : DerivativeLimitOrder D) (f : Fill D)
      (hopen : m.limitOrders isBuy = before ++ o :: after) (hvanilla : ¬o.isReduceOnly)
      (hfill : f.Admitted isBuy o.orderInfo.price o.fillable
        (worstCaseFeeRate m.market one)) :
      MarketFill m (m.fillLimitOrder isBuy before after o f)
  | market (isBuy : Bool) (o : DerivativeMarketOrder D) (f : Fill D)
      (hopen : m.marketOrder isBuy = some o) (hvanilla : ¬o.isReduceOnly)
      (hfill : f.Admitted isBuy o.orderInfo.price o.orderInfo.quantity
        (m.marketOrderFeeRate o)) :
      MarketFill m (m.fillMarketOrder isBuy o f)

/-- A fill in one of the markets of the pool. -/
inductive PoolFill (pool : CrossPool D) : CrossPool D → Prop where
  | fill (before after : List (PoolMarket D)) (m m' : PoolMarket D) (change : D)
      (hmarket : pool.markets = before ++ m :: after) (hfill : MarketFill m (change, m')) :
      PoolFill pool
        { pool with
          quoteBalance := pool.quoteBalance + toChainFormat change pool.quoteDecimals
          markets := before ++ m' :: after }

/-! ## Fills are what matching settles -/

section Expansion

variable (env : FillEnv D) (states : PositionStates D) {m : PoolMarket D}
  (hmarket : m.market = env.market)
include hmarket

/-- The expansion of a limit fill of a cross-margin subaccount is a fill of its position:
    same deposit change, same position. -/
theorem limitExpansion_eq_fill (isTransient isLiquidation : Bool)
    (order : DerivativeLimitOrder D) (fillQuantity : D) (clearingPrice : Option D)
    (hcross : env.isCrossMargin order.orderInfo.subaccountID = true)
    (hvanilla : ¬order.isReduceOnly) (hfill : 0 < fillQuantity)
    (hposition : fillPositionStateCache env states order.orderInfo.subaccountID
        order.orderType.isBuy = m.initializedPosition order.orderType.isBuy) :
    let r := applyPositionDeltaAndGetDerivativeLimitOrderStateExpansion env states
      order.orderType.isBuy isTransient isLiquidation order fillQuantity clearingPrice
    ∃ fee, let f : Fill D := ⟨fillQuantity, clearingPrice.getD order.orderInfo.price, fee⟩
      let update := m.fillPosition order.orderType.isBuy
        (limitExecutionMargin m.market order f.quantity f.price).1 f
      r.1.availableBalanceDelta = depositChange update fee ∧
        r.2 order.orderInfo.subaccountID = some update.position := by
  refine ⟨(getTradeData env.feeDiscountConfig order.orderInfo.subaccountID fillQuantity
    (clearingPrice.getD order.orderInfo.price)
    (limitTradeFeeRate env.market isTransient isLiquidation) env.market.relayerFeeShareRate
    (if isTransient then env.tradeRewardMultiplierConfig.takerPointsMultiplier
      else env.tradeRewardMultiplierConfig.makerPointsMultiplier) (!isTransient)).traderFee, ?_⟩
  simp only [applyPositionDeltaAndGetDerivativeLimitOrderStateExpansion, balanceChange,
    if_pos hcross, if_pos hfill, Position.applyPositionDelta?, getDerivativeOrderFeesAndRefunds,
    if_neg hvanilla, Function.update_self, hposition, PoolMarket.fillPosition, hmarket,
    depositChange, and_self]

/-- So is the expansion of a market order, atomic or not. -/
theorem marketExpansion_eq_fill (order : DerivativeMarketOrder D)
    (fillQuantity clearingPrice takerFeeRate tradeRewardMultiplier : D)
    (hcross : env.isCrossMargin order.orderInfo.subaccountID = true)
    (hvanilla : ¬order.isReduceOnly) (hfill : 0 < fillQuantity)
    (hposition : fillPositionStateCache env states order.orderInfo.subaccountID
        order.orderType.isBuy = m.initializedPosition order.orderType.isBuy) :
    let r := applyPositionDeltaAndGetDerivativeMarketOrderStateExpansion env states order
      fillQuantity clearingPrice takerFeeRate tradeRewardMultiplier
    ∃ fee, let f : Fill D := ⟨fillQuantity, clearingPrice, fee⟩
      let update := m.fillPosition order.orderType.isBuy
        (marketExecutionMargin m.market order f.quantity f.price) f
      r.1.availableBalanceDelta = depositChange update fee ∧
        r.2 order.orderInfo.subaccountID = some update.position := by
  refine ⟨(getTradeData env.feeDiscountConfig order.orderInfo.subaccountID fillQuantity
    clearingPrice takerFeeRate env.market.relayerFeeShareRate tradeRewardMultiplier
    false).traderFee, ?_⟩
  simp only [applyPositionDeltaAndGetDerivativeMarketOrderStateExpansion, balanceChange,
    if_pos hcross, if_pos hfill, Position.applyPositionDelta?, getDerivativeOrderFeesAndRefunds,
    if_neg hvanilla, Function.update_self, hposition, PoolMarket.fillPosition, hmarket,
    depositChange, and_self]

end Expansion

/-! ## Equity of a position -/

section Equity

variable (mark : ℚ)

/-- What a position is worth at a mark price. -/
def equityAt (p : Position ℚ) : ℚ := p.margin + p.getPayoutFromPnl mark p.quantity

theorem equityAt_eq (p : Position ℚ) :
    equityAt mark p = p.margin + p.getSignedPositionQuantity * (mark - p.entryPrice) := by
  simp only [equityAt, Position.getPayoutFromPnl, Position.getSignedPositionQuantity, mul_rat]
  split
  · rfl
  · rw [neg_mul]

variable {p : Position ℚ}

theorem equityAt_of_quantity_eq_zero (h : p.quantity = 0) : equityAt mark p = p.margin := by
  rw [equityAt_eq, Position.getSignedPositionQuantity, h, neg_zero, ite_self, zero_mul, add_zero]

/-- **A FILL CONSERVES EQUITY**: what the deposit gains, the position loses, up to the
    distance of the price to the mark price. -/
theorem equityAt_applyPositionDelta (delta : PositionDelta ℚ) (fee : ℚ) (hp : 0 ≤ p.quantity)
    (hq : 0 < delta.executionQuantity) (hmargin : delta.executionMargin ≠ 0) :
    let u := p.applyPositionDelta delta fee
    equityAt mark u.position + (u.payout - u.collateralizationMargin) =
      equityAt mark p + delta.signed * (mark - delta.executionPrice) := by
  intro u
  obtain ⟨hequity, hposition⟩ := applyPositionDelta_equity fee (not_quoPanics hp hq)
  have hmargins := closeExecution_add_collateralization p delta fee hq
  have hsigned : u.position.getSignedPositionQuantity =
      p.getSignedPositionQuantity + delta.signed := by rw [hposition, signed_netted]
  -- equity is linear in the price
  have hat : ∀ p : Position ℚ, equityAt mark p = p.equity delta.executionPrice +
      p.getSignedPositionQuantity * (mark - delta.executionPrice) := by
    intro p
    show _ = equityAt delta.executionPrice p + _
    rw [equityAt_eq, equityAt_eq]
    ring
  rw [if_neg (fun h => hmargin h.1)] at hequity
  rw [hat, hat p, hsigned]
  linarith

end Equity

variable {p : Position ℚ}

theorem margin_of_closed {delta : PositionDelta ℚ} (fee : ℚ) (hp : 0 ≤ p.quantity)
    (hq : 0 < delta.executionQuantity)
    (hclosed : (p.applyPositionDelta delta fee).position.quantity = 0) :
    (p.applyPositionDelta delta fee).position.margin = 0 := by
  rw [(applyPositionDelta_equity fee (not_quoPanics hp hq)).2, Position.netted] at hclosed ⊢
  split_ifs at hclosed ⊢ with hopposes hle
  · dsimp only at hclosed ⊢
    rw [hclosed, mul_zero, zero_div]
  · exact absurd (sub_eq_zero.mp hclosed) (not_le.mp hle).ne'
  · exact absurd hclosed (add_pos_of_nonneg_of_pos hp hq).ne'

theorem applyFunding_of_applied {funding : Option (PerpetualMarketFunding ℚ)}
    (h : ∀ f, funding = some f → p.cumulativeFundingEntry = some f.cumulativeFunding) :
    p.applyFunding funding = p := by
  cases funding with
  | none => rfl
  | some f =>
    have hentry := h f rfl
    simp only [Position.applyFunding, Position.getFundingAdjustedMarginWithAddedMargin,
      hentry, Option.getD_some, sub_self, mul_rat, mul_zero, add_zero, sub_zero, ite_self]
    rw [← hentry]

namespace PoolMarket

/-- The equity of the position. -/
def equity (m : PoolMarket ℚ) : ℚ := (m.fundedPosition.map (equityAt m.markPrice)).getD 0

theorem equity_eq (m : PoolMarket ℚ) : m.equity = m.positionMargin + m.uPnL := by
  rw [equity, positionMargin, uPnL]
  cases m.fundedPosition with
  | none => exact (add_zero 0).symm
  | some p => rfl

/-- What a market adds to the equity over what it locks. -/
def slack (m : PoolMarket ℚ) : ℚ := m.equity - m.lock

end PoolMarket

/-! ## What a fill changes -/

/-- What the chain validates: derivative markets with non-negative prices and ratios and fee
    rates of at most one; open positions; orders that are open for something, for a fee that is
    not negative. It does not validate that the fee of an atomic sale is at most its price. -/
structure PoolMarket.WellFormed (m : PoolMarket ℚ) : Prop where
  marketType : m.market.marketType ≠ .binaryOption
  markPrice_nonneg : 0 ≤ m.markPrice
  initialMarginRatio_nonneg : 0 ≤ m.market.initialMarginRatio
  maintenanceMarginRatio_le : m.maintenanceMarginRatio ≤ m.market.initialMarginRatio
  makerFeeRate_le : m.market.makerFeeRate ≤ 1
  takerFeeRate_le : m.market.takerFeeRate ≤ 1
  position_pos : ∀ p, m.position = some p → 0 < p.quantity
  limitOrder : ∀ isBuy, ∀ o ∈ m.limitOrders isBuy,
    0 ≤ o.orderInfo.price ∧ 0 < o.orderInfo.quantity ∧ 0 ≤ o.fillable
  marketOrder : ∀ isBuy o, m.marketOrder isBuy = some o →
    0 ≤ o.orderInfo.price ∧ 0 < o.orderInfo.quantity ∧ 0 ≤ m.marketOrderFeeRate o ∧
      (isBuy = false → m.marketOrderFeeRate o ≤ 1)

namespace PoolMarket

variable {m : PoolMarket ℚ}

theorem worstCaseFeeRate_bounds (hm : m.WellFormed) :
    0 ≤ worstCaseFeeRate m.market one ∧ worstCaseFeeRate m.market one ≤ 1 := by
  rw [worstCaseFeeRate, if_neg (lt_irrefl _)]
  exact ⟨le_max_left _ _, max_le zero_le_one (max_le hm.makerFeeRate_le hm.takerFeeRate_le)⟩

variable {isBuy : Bool} {o : DerivativeMarketOrder ℚ}

variable {feeRate : ℚ}

theorem unitCost_nonneg (isBuy : Bool) {price : ℚ} (hprice : 0 ≤ price) (hrate : 0 ≤ feeRate) :
    0 ≤ m.unitCost isBuy price feeRate :=
  add_nonneg (le_max_left _ _) (mul_nonneg hrate hprice)

/-- The signed quantity of a fill. -/
def signedFill (isBuy : Bool) (quantity : ℚ) : ℚ := if isBuy then quantity else -quantity

variable {f : Fill ℚ} {limitPrice remaining : ℚ}

/-- **THE LOCK OF AN ORDER COVERS ITS FILLS**: loss against the mark price and fee are at
    most what was locked. A sale at a better price pays a higher fee out of its gain. -/
theorem fill_cost_le (hf : f.Admitted isBuy limitPrice remaining feeRate) (hrate : 0 ≤ feeRate)
    (hrate' : isBuy = false → feeRate ≤ 1) :
    f.fee - signedFill isBuy f.quantity * (m.markPrice - f.price) ≤
      m.unitCost isBuy limitPrice feeRate * f.quantity := by
  have hprice := hf.price
  have hfee : f.fee ≤ feeRate * f.price * f.quantity := hf.fee
  rw [unitCost, signedFill]
  cases isBuy with
  | true =>
    simp only [if_true] at hprice ⊢
    have hloss : limitPrice - m.markPrice ≤ max 0 (limitPrice - m.markPrice) := le_max_right _ _
    have hunit : feeRate * f.price + (f.price - m.markPrice) ≤
        max 0 (limitPrice - m.markPrice) + feeRate * limitPrice := by
      have := mul_le_mul_of_nonneg_left hprice hrate
      linarith
    have := mul_le_mul_of_nonneg_right hunit hf.quantity_pos.le
    linarith
  | false =>
    simp only [Bool.false_eq_true, if_false] at hprice ⊢
    have hloss : m.markPrice - limitPrice ≤ max 0 (m.markPrice - limitPrice) := le_max_right _ _
    have hunit : feeRate * f.price - (f.price - m.markPrice) ≤
        max 0 (m.markPrice - limitPrice) + feeRate * limitPrice := by
      have := mul_le_mul_of_nonneg_right (hrate' rfl) (sub_nonneg.mpr hprice)
      linarith
    have := mul_le_mul_of_nonneg_right hunit hf.quantity_pos.le
    linarith

theorem initializedPosition_spec (hm : m.WellFormed) (isBuy : Bool) :
    let p := m.initializedPosition isBuy
    0 ≤ p.quantity ∧ equityAt m.markPrice p = m.equity ∧
      p.getSignedPositionQuantity = m.signedQuantity ∧
      ∀ f, m.funding = some f → p.cumulativeFundingEntry = some f.cumulativeFunding := by
  have hfunding (p : Position ℚ) (f : PerpetualMarketFunding ℚ) (hf : m.funding = some f) :
      (p.applyFunding m.funding).cumulativeFundingEntry = some f.cumulativeFunding := by
    rw [hf]
    rfl
  simp only [initializedPosition, equity, signedQuantity, fundedPosition]
  cases hp : m.position with
  | none =>
    have hnew : (newPosition isBuy (m.funding.map (·.cumulativeFunding))).applyFunding
        m.funding = newPosition isBuy (m.funding.map (·.cumulativeFunding)) :=
      applyFunding_of_applied (fun f hf => by rw [hf]; rfl)
    rw [Option.getD_none, hnew]
    refine ⟨le_refl _, equityAt_of_quantity_eq_zero _ rfl, ?_, ?_⟩
    · simp only [Position.getSignedPositionQuantity, newPosition, neg_zero, ite_self,
        Option.map_none, Option.getD_none]
    · intro f hf
      rw [hf]
      rfl
  | some p =>
    have hpos := hm.position_pos p hp
    simp only [if_neg hpos.ne', Option.getD_some, Option.map_some]
    exact ⟨(applyFunding_quantity p m.funding).symm ▸ hpos.le, trivial, trivial, hfunding p⟩

theorem netted_cumulativeFundingEntry (p : Position ℚ) (delta : PositionDelta ℚ) :
    (p.netted delta).cumulativeFundingEntry = p.cumulativeFundingEntry := by
  rw [Position.netted]
  split
  · rfl
  · split <;> rfl

variable {executionMargin : ℚ}

/-- **THE POSITION OF A FILL**: equity moves by the distance of the price to the mark price
    and the fee, the signed quantity by the fill. -/
theorem fillPosition_spec (hm : m.WellFormed) (isBuy : Bool) (hmargin : executionMargin ≠ 0)
    (hq : 0 < f.quantity) : let update := m.fillPosition isBuy executionMargin f
    let m' := m.withPosition update.position
    m'.equity + depositChange update f.fee =
        m.equity + signedFill isBuy f.quantity * (m.markPrice - f.price) - f.fee ∧
      m'.signedQuantity = m.signedQuantity + signedFill isBuy f.quantity ∧
      ∀ p, m'.position = some p → 0 < p.quantity := by
  obtain ⟨hp, hequity, hsigned, hfunded⟩ := initializedPosition_spec hm isBuy
  intro update m'
  set delta : PositionDelta ℚ :=
    { isLong := isBuy, executionQuantity := f.quantity, executionMargin := executionMargin
      executionPrice := f.price }
  have hfill : update = (m.initializedPosition isBuy).applyPositionDelta delta f.fee := rfl
  have hsum := equityAt_applyPositionDelta m.markPrice delta f.fee hp hq hmargin
  obtain ⟨hadd, hnonneg⟩ := signed_applyPositionDelta (m.initializedPosition isBuy) delta f.fee
    hp hq.le
  have hdelta : delta.signed = signedFill isBuy f.quantity := rfl
  simp only [← hfill] at hsum hadd hnonneg
  have hposition : m'.position =
      if update.position.quantity = 0 then none else some update.position := rfl
  have hread : m'.equity = equityAt m.markPrice update.position ∧
      m'.signedQuantity = update.position.getSignedPositionQuantity := by
    by_cases hzero : update.position.quantity = 0
    · rw [if_pos hzero] at hposition
      have hnone : m'.fundedPosition = none := by rw [fundedPosition, hposition]
      rw [equity, signedQuantity, hnone, equityAt_of_quantity_eq_zero _ hzero, hfill,
        margin_of_closed f.fee hp hq hzero, ← hfill, Position.getSignedPositionQuantity, hzero,
        neg_zero, ite_self]
      exact ⟨rfl, rfl⟩
    · rw [if_neg hzero] at hposition
      have happlied : update.position.applyFunding m.funding = update.position :=
        applyFunding_of_applied (fun f' hf' => by
          rw [hfill, (applyPositionDelta_equity f.fee (not_quoPanics hp hq)).2,
            netted_cumulativeFundingEntry, hfunded f' hf'])
      have hsome : m'.fundedPosition = some update.position := by
        simp only [fundedPosition, hposition, if_neg hzero]
        exact congrArg some happlied
      rw [equity, signedQuantity, hsome]
      exact ⟨rfl, rfl⟩
  refine ⟨?_, ?_, ?_⟩
  · rw [hread.1, depositChange, ← hequity, ← hdelta]
    linarith
  · rw [hread.2, hadd, hsigned, hdelta]
  · intro p hsome
    rw [hposition] at hsome
    split at hsome
    · cases hsome
    rename_i hzero
    rw [← Option.some.inj hsome]
    exact lt_of_le_of_ne hnonneg (Ne.symm hzero)

theorem computeAbsWorstExposure_le {s s' buy buy' sell sell' : ℚ} (hlow : s - sell ≤ s' - sell')
    (hhigh : s' + buy' ≤ s + buy) (hbuy : 0 ≤ buy') (hsell : 0 ≤ sell') :
    computeAbsWorstExposure s' buy' sell' ≤ computeAbsWorstExposure s buy sell := by
  rw [computeAbsWorstExposure, computeAbsWorstExposure, max_comm |s + buy|]
  exact max_le (abs_le_max_abs_abs (by linarith) hhigh) (abs_le_max_abs_abs hlow (by linarith))

theorem aggregateVanillaQuantity_nonneg (hm : m.WellFormed) (isBuy : Bool) :
    0 ≤ m.aggregateVanillaQuantity isBuy := by
  refine List.sum_nonneg (fun x hx => ?_)
  obtain ⟨o, ho, rfl⟩ := List.mem_map.mp hx
  split
  · exact le_refl 0
  · exact (hm.limitOrder isBuy o ho).2.2

theorem vanillaMarketOrder_nonneg {g : DerivativeMarketOrder ℚ → ℚ}
    (hg : ∀ o, m.marketOrder isBuy = some o → 0 ≤ g o) :
    0 ≤ ((m.vanillaMarketOrder isBuy).map g).getD 0 := by
  cases ho : m.vanillaMarketOrder isBuy with
  | none => exact le_refl 0
  | some o => exact hg o (Option.filter_eq_some_iff.mp ho).1

theorem openQuantity_nonneg (hm : m.WellFormed) (isBuy : Bool) : 0 ≤ m.openQuantity isBuy :=
  add_nonneg (aggregateVanillaQuantity_nonneg hm isBuy)
    (vanillaMarketOrder_nonneg (fun o ho => (hm.marketOrder isBuy o ho).2.1.le))

theorem limitLock_nonneg (hm : m.WellFormed) (isBuy : Bool) : 0 ≤ m.limitLock isBuy := by
  refine List.sum_nonneg (fun x hx => ?_)
  obtain ⟨o, ho, rfl⟩ := List.mem_map.mp hx
  obtain ⟨hprice, -, hfillable⟩ := hm.limitOrder isBuy o ho
  split
  · exact le_refl 0
  · exact mul_nonneg (unitCost_nonneg isBuy hprice (worstCaseFeeRate_bounds hm).1) hfillable

theorem marketLock_nonneg (hm : m.WellFormed) (isBuy : Bool) : 0 ≤ m.marketLock isBuy := by
  refine vanillaMarketOrder_nonneg (fun o ho => ?_)
  obtain ⟨hprice, hquantity, hrate, -⟩ := hm.marketOrder isBuy o ho
  exact mul_nonneg (unitCost_nonneg isBuy hprice hrate) hquantity.le

theorem marginAt_le_lock (hm : m.WellFormed) : m.marginAt m.market.initialMarginRatio ≤ m.lock := by
  have hexposure : |m.signedQuantity| ≤ computeAbsWorstExposure m.signedQuantity
      (m.openQuantity true) (m.openQuantity false) := by
    have hle : computeAbsWorstExposure m.signedQuantity 0 0 ≤ computeAbsWorstExposure
        m.signedQuantity (m.openQuantity true) (m.openQuantity false) :=
      computeAbsWorstExposure_le
        (sub_le_sub_left (openQuantity_nonneg hm false) m.signedQuantity)
        (add_le_add_right (openQuantity_nonneg hm true) m.signedQuantity) le_rfl le_rfl
    simpa only [computeAbsWorstExposure, add_zero, sub_zero, max_self] using hle
  have hmargin := mul_le_mul_of_nonneg_left hexposure
    (mul_nonneg hm.initialMarginRatio_nonneg hm.markPrice_nonneg)
  rw [marginAt, lock, exposureMargin, sideLock, sideLock]
  linarith [limitLock_nonneg hm true, limitLock_nonneg hm false, marketLock_nonneg hm true,
    marketLock_nonneg hm false]

/-- What a fill of the position does to equity, exposure and the stored position, for an
    order of a side. -/
structure FillsPosition (m m' : PoolMarket ℚ) (isBuy : Bool) (quantity cost change : ℚ) :
    Prop where
  market : m'.market = m.market
  markPrice : m'.markPrice = m.markPrice
  quantity_pos : 0 < quantity
  equity : m.equity - cost ≤ m'.equity + change
  signedQuantity : m'.signedQuantity = m.signedQuantity + signedFill isBuy quantity
  position_pos : ∀ p, m'.position = some p → 0 < p.quantity

/-- **A FILL LEAVES THE SLACK**: equity loses at most the cost, which the side unlocks, and
    the exposure moves into the range it had. -/
theorem slack_le_of_fill {m' : PoolMarket ℚ} {quantity cost change : ℚ} (hm : m.WellFormed)
    (hm' : m'.WellFormed) (hfill : FillsPosition m m' isBuy quantity cost change)
    (hopen : m'.openQuantity isBuy + quantity ≤ m.openQuantity isBuy)
    (hopenOther : m'.openQuantity (!isBuy) = m.openQuantity (!isBuy))
    (hlock : m'.sideLock isBuy + cost ≤ m.sideLock isBuy)
    (hlockOther : m'.sideLock (!isBuy) = m.sideLock (!isBuy)) :
    m.slack ≤ m'.slack + change := by
  have hquantity := hfill.quantity_pos
  have hequity := hfill.equity
  have hexposure : m'.exposureMargin ≤ m.exposureMargin := by
    rw [exposureMargin, exposureMargin, hfill.market, hfill.markPrice, hfill.signedQuantity]
    refine mul_le_mul_of_nonneg_left (computeAbsWorstExposure_le ?_ ?_
      (openQuantity_nonneg hm' true) (openQuantity_nonneg hm' false))
      (mul_nonneg hm.initialMarginRatio_nonneg hm.markPrice_nonneg)
    · cases isBuy <;> simp [signedFill] at hopen hopenOther ⊢ <;> linarith
    · cases isBuy <;> simp [signedFill] at hopen hopenOther ⊢ <;> linarith
  have hsides : m'.sideLock true + m'.sideLock false + cost ≤
      m.sideLock true + m.sideLock false := by
    cases isBuy <;> simp only [Bool.not_true, Bool.not_false] at hlockOther <;> linarith
  rw [slack, slack, lock, lock]
  linarith

theorem withPosition_fillsPosition (hm : m.WellFormed) (hmargin : executionMargin ≠ 0)
    (hrate : 0 ≤ feeRate) (hrate' : isBuy = false → feeRate ≤ 1)
    (hf : f.Admitted isBuy limitPrice remaining feeRate) :
    let update := m.fillPosition isBuy executionMargin f
    FillsPosition m (m.withPosition update.position) isBuy f.quantity
      (m.unitCost isBuy limitPrice feeRate * f.quantity) (depositChange update f.fee) := by
  obtain ⟨hequity, hsigned, hposition⟩ := fillPosition_spec hm isBuy hmargin hf.quantity_pos
  refine ⟨rfl, rfl, hf.quantity_pos, ?_, hsigned, hposition⟩
  have hcost := fill_cost_le (m := m) hf hrate hrate'
  linarith

theorem sum_map_replace {α : Type} (g : α → ℚ) (before after : List α) (x y : α) :
    ((before ++ y :: after).map g).sum = ((before ++ x :: after).map g).sum - g x + g y := by
  simp only [List.map_append, List.map_cons, List.sum_append, List.sum_cons]
  ring

/-- The slack falls by no more than the fill adds to the balance. -/
theorem fillLimitOrder_slack (hm : m.WellFormed) {before after : List (DerivativeLimitOrder ℚ)}
    {o : DerivativeLimitOrder ℚ} (hopen : m.limitOrders isBuy = before ++ o :: after)
    (hvanilla : ¬o.isReduceOnly)
    (hf : f.Admitted isBuy o.orderInfo.price o.fillable (worstCaseFeeRate m.market one)) :
    (m.fillLimitOrder isBuy before after o f).2.WellFormed ∧
      m.slack ≤ (m.fillLimitOrder isBuy before after o f).2.slack +
        (m.fillLimitOrder isBuy before after o f).1 := by
  have horders := hm.limitOrder isBuy
  rw [hopen, List.forall_mem_append, List.forall_mem_cons] at horders
  obtain ⟨hbefore, ⟨hprice, hquantity, -⟩, hafter⟩ := horders
  have hmargin : (limitExecutionMargin m.market o f.quantity f.price).1 ≠ 0 := by
    rw [limitExecutionMargin, if_pos hm.marketType]
    simp only [mul_rat, quo_rat]
    exact div_ne_zero (mul_ne_zero (fun h => hvanilla (decide_eq_true h)) hf.quantity_pos.ne')
      hquantity.ne'
  obtain ⟨hrate, hrate'⟩ := worstCaseFeeRate_bounds hm
  have hfill := withPosition_fillsPosition hm hmargin hrate (fun _ => hrate') hf
  set o' : DerivativeLimitOrder ℚ := { o with fillable := o.fillable - f.quantity }
  have hvanilla' : ¬o'.isReduceOnly := hvanilla
  set m' := (m.fillLimitOrder isBuy before after o f).2 with hm'
  have hside : m'.limitOrders isBuy = before ++ o' :: after := Function.update_self ..
  have hother : m'.limitOrders (!isBuy) = m.limitOrders (!isBuy) :=
    Function.update_of_ne (Bool.not_ne_self isBuy) ..
  have hwf : m'.WellFormed := by
    refine { hm with position_pos := hfill.position_pos, limitOrder := fun side => ?_ }
    by_cases hsame : side = isBuy
    · rw [hsame, hside, List.forall_mem_append, List.forall_mem_cons]
      exact ⟨hbefore, ⟨hprice, hquantity, sub_nonneg.mpr hf.quantity_le⟩, hafter⟩
    · rw [Bool.eq_not_of_ne hsame, hother]
      exact hm.limitOrder _
  refine ⟨hwf, slack_le_of_fill hm hwf { hfill with } (le_of_eq ?_) ?_ (le_of_eq ?_) ?_⟩
  · -- the side is open for less, by the fill
    have hsum : m'.aggregateVanillaQuantity isBuy + f.quantity =
        m.aggregateVanillaQuantity isBuy := by
      rw [aggregateVanillaQuantity, hside, sum_map_replace _ before after o, ← hopen,
        if_neg hvanilla, if_neg hvanilla', aggregateVanillaQuantity]
      ring
    rw [openQuantity, openQuantity, ← hsum, add_right_comm]
    rfl
  · rw [openQuantity, openQuantity, aggregateVanillaQuantity, hother]
    rfl
  · -- and locks less, by the cost of the fill
    have hsum : m'.limitLock isBuy + m.unitCost isBuy o.orderInfo.price
        (worstCaseFeeRate m.market one) * f.quantity = m.limitLock isBuy := by
      have hreplaced : m'.limitLock isBuy = m.limitLock isBuy -
          m.unitCost isBuy o.orderInfo.price (worstCaseFeeRate m.market one) * o.fillable +
          m.unitCost isBuy o.orderInfo.price (worstCaseFeeRate m.market one) *
            (o.fillable - f.quantity) := by
        rw [limitLock, hside, sum_map_replace _ before after o, ← hopen, if_neg hvanilla,
          if_neg hvanilla']
        rfl
      rw [hreplaced]
      ring
    rw [sideLock, sideLock, ← hsum, add_right_comm]
    rfl
  · rw [sideLock, sideLock, limitLock, hother]
    rfl

theorem fillMarketOrder_slack (hm : m.WellFormed) (hopen : m.marketOrder isBuy = some o)
    (hvanilla : ¬o.isReduceOnly)
    (hf : f.Admitted isBuy o.orderInfo.price o.orderInfo.quantity (m.marketOrderFeeRate o)) :
    (m.fillMarketOrder isBuy o f).2.WellFormed ∧
      m.slack ≤ (m.fillMarketOrder isBuy o f).2.slack + (m.fillMarketOrder isBuy o f).1 := by
  obtain ⟨hprice, hquantity, hrate, hrate'⟩ := hm.marketOrder isBuy o hopen
  have hmargin : marketExecutionMargin m.market o f.quantity f.price ≠ 0 := by
    rw [marketExecutionMargin, if_neg hm.marketType]
    simp only [mul_rat, quo_rat]
    exact div_ne_zero (mul_ne_zero (fun h => hvanilla (decide_eq_true h)) hf.quantity_pos.ne')
      hquantity.ne'
  have hfill := withPosition_fillsPosition hm hmargin hrate hrate' hf
  set m' := (m.fillMarketOrder isBuy o f).2 with hm'
  have hgone : m'.marketOrder isBuy = none := Function.update_self ..
  have hside : m'.vanillaMarketOrder isBuy = none := by rw [vanillaMarketOrder, hgone]; rfl
  have hother' : m'.marketOrder (!isBuy) = m.marketOrder (!isBuy) :=
    Function.update_of_ne (Bool.not_ne_self isBuy) ..
  have hother : m'.vanillaMarketOrder (!isBuy) = m.vanillaMarketOrder (!isBuy) := by
    rw [vanillaMarketOrder, hother', vanillaMarketOrder]
  have hopen' : m.vanillaMarketOrder isBuy = some o := by
    rw [vanillaMarketOrder, hopen, Option.filter, if_pos]
    simpa [hquantity.ne'] using hvanilla
  have hwf : m'.WellFormed := by
    refine { hm with position_pos := hfill.position_pos, marketOrder := fun side x hx => ?_ }
    by_cases hsame : side = isBuy
    · rw [hsame, hgone] at hx
      exact nomatch hx
    · obtain rfl := Bool.eq_not_of_ne hsame
      rw [hother'] at hx
      exact hm.marketOrder _ x hx
  refine ⟨hwf, slack_le_of_fill hm hwf { hfill with } ?_ ?_ ?_ ?_⟩
  · rw [openQuantity, openQuantity, hside, hopen']
    show m.aggregateVanillaQuantity isBuy + 0 + f.quantity ≤
      m.aggregateVanillaQuantity isBuy + o.orderInfo.quantity
    linarith [hf.quantity_le]
  · rw [openQuantity, openQuantity, hother]
    rfl
  · have hcost := mul_le_mul_of_nonneg_left hf.quantity_le
      (unitCost_nonneg (m := m) isBuy hprice hrate)
    rw [sideLock, sideLock, marketLock, hside, marketLock, hopen', Option.map_some,
      Option.getD_some]
    show m.limitLock isBuy + 0 + _ ≤ m.limitLock isBuy + _
    linarith
  · rw [sideLock, sideLock, marketLock, hother]
    rfl

end PoolMarket

variable {m : PoolMarket ℚ}

/-- **EVERY FILL** keeps a market well formed and does not lower its slack together with
    the balance. -/
theorem MarketFill.slack_le {m' : PoolMarket ℚ} {change : ℚ} (h : MarketFill m (change, m'))
    (hm : m.WellFormed) : m'.WellFormed ∧ m.slack ≤ m'.slack + change := by
  generalize hr : (change, m') = r at h
  have hspec : r.2.WellFormed ∧ m.slack ≤ r.2.slack + r.1 := by
    cases h with
    | limit isBuy before after o f hopen hvanilla hfill =>
      exact PoolMarket.fillLimitOrder_slack hm hopen hvanilla hfill
    | market isBuy o f hopen hvanilla hfill =>
      exact PoolMarket.fillMarketOrder_slack hm hopen hvanilla hfill
  rwa [← hr] at hspec

/-! ## The pool -/

/-- The markets are well formed, and the haircut is a rate. -/
structure CrossPool.WellFormed (pool : CrossPool ℚ) : Prop where
  haircut_nonneg : 0 ≤ pool.positiveUPnLHaircutRate
  haircut_le_one : pool.positiveUPnLHaircutRate ≤ 1
  markets : ∀ m ∈ pool.markets, m.WellFormed

namespace CrossPool

/-- What the equity is over the order lock requirement. -/
def slack (pool : CrossPool ℚ) : ℚ :=
  fromChainFormat pool.quoteBalance pool.quoteDecimals - pool.feesBuffer +
    (pool.markets.map (·.slack)).sum

theorem sum_slack (markets : List (PoolMarket ℚ)) :
    (markets.map (·.slack)).sum = (markets.map (·.positionMargin)).sum +
      (markets.map (·.uPnL)).sum - (markets.map (·.lock)).sum := by
  induction markets with
  | nil => simp
  | cons m rest ih =>
    simp only [List.map_cons, List.sum_cons]
    rw [ih, PoolMarket.slack, PoolMarket.equity_eq]
    ring

theorem equityLiquidation_sub_lock (pool : CrossPool ℚ) :
    pool.snapshot.equityLiquidation - pool.snapshot.orderLockRequirement = pool.slack := by
  obtain ⟨-, hequity, hlock, -, -⟩ := pool.snapshot_eq
  rw [hequity, hlock, slack, sum_slack]
  ring

theorem equityAdmission_le (pool : CrossPool ℚ) (h : pool.WellFormed) :
    pool.snapshot.equityAdmission ≤ pool.snapshot.equityLiquidation := by
  obtain ⟨hadmission, hliquidation, -, -, -⟩ := pool.snapshot_eq
  rw [hadmission, hliquidation]
  refine sub_le_sub_right (add_le_add_right ?_ _) _
  rw [effectiveUPnL]
  split
  · exact le_refl _
  · next hpos =>
      simp only [mul_rat, one_rat]
      have := mul_nonneg (not_not.mp hpos).le h.haircut_nonneg
      linarith

/-- The lock covers the initial margin of all positions, and that their maintenance
    margin. -/
theorem margins_le_lock (pool : CrossPool ℚ) (h : pool.WellFormed) :
    pool.snapshot.initialMarginTotal ≤ pool.snapshot.orderLockRequirement ∧
      pool.snapshot.maintenanceMarginTotal ≤ pool.snapshot.initialMarginTotal := by
  obtain ⟨-, -, hlock, him, hmm⟩ := pool.snapshot_eq
  rw [hlock, him, hmm]
  constructor
  · exact List.sum_le_sum (fun m hm => PoolMarket.marginAt_le_lock (h.markets m hm))
  · refine List.sum_le_sum (fun m hm => ?_)
    have hmarket := h.markets m hm
    exact mul_le_mul_of_nonneg_right hmarket.maintenanceMarginRatio_le
      (mul_nonneg (abs_nonneg _) hmarket.markPrice_nonneg)

end CrossPool

variable {pool : CrossPool ℚ} {pool' : CrossPool ℚ}

/-- **A STEP**: a fill in any market keeps the pool well formed and its slack. -/
theorem PoolFill.slack_le (h : PoolFill pool pool') (hpool : pool.WellFormed) :
    pool'.WellFormed ∧ pool.slack ≤ pool'.slack := by
  cases h with
  | fill before after m m' change hmarket hfill =>
    have hmarkets := hpool.markets
    rw [hmarket, List.forall_mem_append, List.forall_mem_cons] at hmarkets
    obtain ⟨hbefore, hm, hafter⟩ := hmarkets
    obtain ⟨hm', hslack⟩ := hfill.slack_le hm
    refine ⟨⟨hpool.haircut_nonneg, hpool.haircut_le_one,
      List.forall_mem_append.mpr ⟨hbefore, List.forall_mem_cons.mpr ⟨hm', hafter⟩⟩⟩, ?_⟩
    · have hbalance : fromChainFormat (pool.quoteBalance +
          toChainFormat change pool.quoteDecimals) pool.quoteDecimals =
          fromChainFormat pool.quoteBalance pool.quoteDecimals + change := by
        simp only [fromChainFormat, toChainFormat, mul_rat, quo_rat, newDec_rat, add_div]
        rw [mul_div_cancel_right₀]
        positivity
      simp only [CrossPool.slack, hbalance, hmarket, List.map_append, List.map_cons,
        List.sum_append, List.sum_cons]
      linarith

/-- **A RUN**: fills one after the other, in any markets and any order. -/
theorem run_slack_le (hrun : Relation.ReflTransGen PoolFill pool pool')
    (hpool : pool.WellFormed) : pool'.WellFormed ∧ pool.slack ≤ pool'.slack := by
  induction hrun with
  | refl => exact ⟨hpool, le_refl _⟩
  | tail _ hstep ih =>
    obtain ⟨hwf, hle⟩ := hstep.slack_le ih.1
    exact ⟨hwf, ih.2.trans hle⟩

/-- **ADMISSION IS SOUND**: from a pool whose admission equity covers its order lock
    requirement, every combination of fills of its open vanilla orders, each at no worse
    price than its limit and for at most the worst-case fee rate, leaves a pool whose
    liquidation equity covers its initial margin. It cannot be liquidated. -/
theorem admission_sound (pool pool' : CrossPool ℚ) (hpool : pool.WellFormed)
    (hadmitted : pool.snapshot.orderLockRequirement ≤ pool.snapshot.equityAdmission)
    (hrun : Relation.ReflTransGen PoolFill pool pool') :
    pool'.snapshot.initialMarginTotal ≤ pool'.snapshot.equityLiquidation ∧
      pool'.snapshot.isLiquidatable = false := by
  obtain ⟨hwf, hslack⟩ := run_slack_le hrun hpool
  obtain ⟨him, hmm⟩ := pool'.margins_le_lock hwf
  have hbefore := pool.equityLiquidation_sub_lock
  have hafter := pool'.equityLiquidation_sub_lock
  have hcut := pool.equityAdmission_le hpool
  have hequity : pool'.snapshot.initialMarginTotal ≤ pool'.snapshot.equityLiquidation := by
    linarith
  refine ⟨hequity, ?_⟩
  rw [CrossPoolSnapshot.isLiquidatable, decide_eq_true (hmm.trans hequity), Bool.or_true]
  rfl

/-! ## What admission ensures -/

variable {o : DerivativeLimitOrder ℚ}

theorem PoolMarket.placeLimitOrder_lock (m : PoolMarket ℚ) (isBuy : Bool)
    (hvanilla : ¬o.isReduceOnly) :
    (m.placeLimitOrder isBuy o).lock = m.lock +
      m.market.initialMarginRatio * m.markPrice *
        ((if isBuy then computeAbsWorstExposure m.signedQuantity
            (m.openQuantity true + o.fillable) (m.openQuantity false)
          else computeAbsWorstExposure m.signedQuantity (m.openQuantity true)
            (m.openQuantity false + o.fillable)) -
          computeAbsWorstExposure m.signedQuantity (m.openQuantity true) (m.openQuantity false)) +
      m.unitCost isBuy o.orderInfo.price (worstCaseFeeRate m.market one) * o.fillable := by
  set m' := m.placeLimitOrder isBuy o
  have hside : m'.limitOrders isBuy = m.limitOrders isBuy ++ [o] := Function.update_self ..
  have hother : m'.limitOrders (!isBuy) = m.limitOrders (!isBuy) :=
    Function.update_of_ne (Bool.not_ne_self isBuy) ..
  have hopen : m'.openQuantity isBuy = m.openQuantity isBuy + o.fillable := by
    rw [openQuantity, aggregateVanillaQuantity, hside, List.map_append, List.sum_append,
      List.map_singleton, List.sum_singleton, if_neg hvanilla, add_right_comm]
    rfl
  have hopenOther : m'.openQuantity (!isBuy) = m.openQuantity (!isBuy) := by
    rw [openQuantity, aggregateVanillaQuantity, hother]
    rfl
  have hlock : m'.sideLock isBuy = m.sideLock isBuy +
      m.unitCost isBuy o.orderInfo.price (worstCaseFeeRate m.market one) * o.fillable := by
    rw [sideLock, limitLock, hside, List.map_append, List.sum_append, List.map_singleton,
      List.sum_singleton, if_neg hvanilla, add_right_comm]
    rfl
  have hlockOther : m'.sideLock (!isBuy) = m.sideLock (!isBuy) := by
    rw [sideLock, limitLock, hother]
    rfl
  have hexposure : m'.exposureMargin = m.market.initialMarginRatio * m.markPrice *
      computeAbsWorstExposure m.signedQuantity (m'.openQuantity true) (m'.openQuantity false) := rfl
  rw [lock, hexposure, lock, exposureMargin]
  cases isBuy with
  | true =>
    rw [Bool.not_true] at hopenOther hlockOther
    rw [hopen, hopenOther, hlock, hlockOther, if_pos rfl]
    ring
  | false =>
    rw [Bool.not_false] at hopenOther hlockOther
    rw [hopen, hopenOther, hlock, hlockOther, if_neg Bool.false_ne_true]
    ring

theorem PoolMarket.signedQuantity_eq (m : PoolMarket ℚ) :
    m.signedQuantity = (m.position.map (·.getSignedPositionQuantity)).getD 0 := by
  rw [signedQuantity, fundedPosition]
  cases m.position with
  | none => rfl
  | some p =>
    by_cases hzero : p.quantity = 0
    · simp only [if_pos hzero]
      simp only [Option.map_none, Option.getD_none, Option.map_some, Option.getD_some,
        Position.getSignedPositionQuantity, hzero, neg_zero, ite_self]
    · simp only [if_neg hzero, Option.map_some, Option.getD_some, signed_applyFunding]

/-- **WHAT IS ADMITTED CAN BE PLACED**: a pool that admits a limit order covers the order
    lock requirement with it. -/
theorem reserve_admits {before after : List (PoolMarket ℚ)}
    (hmarkets : pool.markets = before ++ m :: after) (hm : m.WellFormed) {isBuy : Bool}
    (hvanilla : ¬o.isReduceOnly) {olr : ℚ}
    (h : reserveDerivativeOrderMargin pool m isBuy o.orderInfo.price o.fillable one = .ok olr) :
    let pool' := { pool with markets := before ++ m.placeLimitOrder isBuy o :: after }
    pool'.snapshot.orderLockRequirement ≤ pool'.snapshot.equityAdmission := by
  intro pool'
  obtain ⟨hadmission, -, hlock, -, -⟩ := pool.snapshot_eq
  obtain ⟨hadmission', -, hlock', -, -⟩ := pool'.snapshot_eq
  -- positions are unchanged, and with them the equity
  have hequity : pool'.snapshot.equityAdmission = pool.snapshot.equityAdmission := by
    rw [hadmission, hadmission', hmarkets]
    simp only [pool', List.map_append, List.map_cons]
    rfl
  have hchecked : orderLockAfter pool m isBuy o.orderInfo.price o.fillable
      (worstCaseFeeRate m.market one) ≤ pool.snapshot.equityAdmission := by
    simp only [reserveDerivativeOrderMargin] at h
    split at h
    · exact nomatch h
    split at h
    · exact nomatch h
    · next hadmitted => exact not_lt.mp hadmitted
  rw [hequity]
  refine le_trans ?_ hchecked
  have hplaced := m.placeLimitOrder_lock isBuy hvanilla
  simp only [hmarkets, List.map_append, List.map_cons, List.sum_append, List.sum_cons] at hlock
  simp only [pool', List.map_append, List.map_cons, List.sum_append, List.sum_cons] at hlock'
  simp only [orderLockAfter, computeEntryLoss_eq, ← m.signedQuantity_eq, mul_rat]
  set worstAfter := if isBuy then computeAbsWorstExposure m.signedQuantity
      (m.openQuantity true + o.fillable) (m.openQuantity false)
    else computeAbsWorstExposure m.signedQuantity (m.openQuantity true)
      (m.openQuantity false + o.fillable)
  set worstBefore := computeAbsWorstExposure m.signedQuantity (m.openQuantity true)
    (m.openQuantity false)
  have hdelta : worstAfter - worstBefore ≤
      if worstAfter - worstBefore < 0 then 0 else worstAfter - worstBefore := by
    split
    · next hneg => exact hneg.le
    · exact le_refl _
  have hmargin := mul_le_mul_of_nonneg_left hdelta
    (mul_nonneg hm.initialMarginRatio_nonneg hm.markPrice_nonneg)
  rw [hlock', hlock, hplaced, PoolMarket.unitCost]
  linarith

/-! ## Placements and fills in any order -/

/-- A step of a pool: an order that was admitted is placed, or an open one is filled. -/
inductive PoolStep (pool : CrossPool ℚ) : CrossPool ℚ → Prop where
  | place (before after : List (PoolMarket ℚ)) (m : PoolMarket ℚ) (isBuy : Bool)
      (o : DerivativeLimitOrder ℚ) (olr : ℚ) (hmarkets : pool.markets = before ++ m :: after)
      (hvanilla : ¬o.isReduceOnly)
      (hvalid : (m.placeLimitOrder isBuy o).WellFormed)
      (hreserved : reserveDerivativeOrderMargin pool m isBuy o.orderInfo.price o.fillable one =
        .ok olr) :
      PoolStep pool { pool with markets := before ++ m.placeLimitOrder isBuy o :: after }
  | fill (pool' : CrossPool ℚ) (hfill : PoolFill pool pool') : PoolStep pool pool'

theorem PoolStep.slack_nonneg (h : PoolStep pool pool') (hpool : pool.WellFormed)
    (hslack : 0 ≤ pool.slack) : pool'.WellFormed ∧ 0 ≤ pool'.slack := by
  cases h with
  | place before after m isBuy o olr hmarkets hvanilla hvalid hreserved =>
    have hall := hpool.markets
    rw [hmarkets, List.forall_mem_append, List.forall_mem_cons] at hall
    obtain ⟨hbefore, hm, hafter⟩ := hall
    have hwf : CrossPool.WellFormed
        { pool with markets := before ++ m.placeLimitOrder isBuy o :: after } :=
      { hpool with
        markets := List.forall_mem_append.mpr
          ⟨hbefore, List.forall_mem_cons.mpr ⟨hvalid, hafter⟩⟩ }
    refine ⟨hwf, ?_⟩
    rw [← CrossPool.equityLiquidation_sub_lock, sub_nonneg]
    exact (reserve_admits hmarkets hm hvanilla hreserved).trans (CrossPool.equityAdmission_le _ hwf)
  | fill pool' hfill =>
    obtain ⟨hwf, hle⟩ := hfill.slack_le hpool
    exact ⟨hwf, hslack.trans hle⟩

/-- **NO RUN OF ADMISSIONS AND FILLS LIQUIDATES**: orders may be admitted between the fills
    of others, in any markets and any order. -/
theorem pool_never_liquidatable (hpool : pool.WellFormed)
    (hadmitted : pool.snapshot.orderLockRequirement ≤ pool.snapshot.equityAdmission)
    (hrun : Relation.ReflTransGen PoolStep pool pool') :
    pool'.snapshot.isLiquidatable = false := by
  have hstart : 0 ≤ pool.slack := by
    rw [← pool.equityLiquidation_sub_lock, sub_nonneg]
    exact hadmitted.trans (pool.equityAdmission_le hpool)
  have hend : pool'.WellFormed ∧ 0 ≤ pool'.slack := by
    induction hrun with
    | refl => exact ⟨hpool, hstart⟩
    | tail _ hstep ih => exact hstep.slack_nonneg ih.1 ih.2
  obtain ⟨hlock, hmargin⟩ := pool'.margins_le_lock hend.1
  have hequity := hend.2
  rw [← pool'.equityLiquidation_sub_lock, sub_nonneg] at hequity
  rw [CrossPoolSnapshot.isLiquidatable, decide_eq_true (hmargin.trans (hlock.trans hequity)),
    Bool.or_true]
  rfl

/-! ## One order -/

/-- A buy of 2 at 101. -/
def sampleBuy : DerivativeLimitOrder ℚ :=
  { orderInfo := { subaccountID := 1, feeRecipient := 0, price := 101, quantity := 2
                   cid := "" }
    orderType := .buy, margin := 30, fillable := 2, orderHash := 1 }

/-- A market at 100 with an initial margin of a tenth and a fee of a hundredth. -/
def sampleMarket : PoolMarket ℚ where
  market :=
    { marketType := .perpetual, makerFeeRate := 1 / 100, takerFeeRate := 1 / 100
      relayerFeeShareRate := 0, oracleScaleFactor := 0, quoteDecimals := 0
      initialMarginRatio := 1 / 10, openNotionalCap := .uncapped }
  maintenanceMarginRatio := 1 / 20
  atomicFeeMultiplier := 1
  markPrice := 100
  funding := some ⟨0⟩
  position := none
  limitOrders := fun isBuy => if isBuy then [sampleBuy] else []
  marketOrder := fun _ => none

/-- A pool with a balance of 25. -/
def samplePool : CrossPool ℚ := ⟨25, 0, 1 / 2, 0, [sampleMarket]⟩

theorem samplePool_wellFormed : samplePool.WellFormed where
  haircut_nonneg := by decide +kernel
  haircut_le_one := by decide +kernel
  markets m hm := by
    rw [List.mem_singleton.mp hm]
    exact
      { marketType := by decide
        markPrice_nonneg := by decide +kernel
        initialMarginRatio_nonneg := by decide +kernel
        maintenanceMarginRatio_le := by decide +kernel
        makerFeeRate_le := by decide +kernel
        takerFeeRate_le := by decide +kernel
        position_pos := nofun
        limitOrder := by decide +kernel
        marketOrder := nofun }

/-- The order is filled at 101 for the whole fee: the deposit pays margin and fee, and
    what is left covers the margin of the position. -/
theorem admission_sound_sample :
    ∃ pool', PoolFill samplePool pool' ∧ pool'.quoteBalance = -702 / 100 ∧
      pool'.snapshot.initialMarginTotal ≤ pool'.snapshot.equityLiquidation := by
  have hfill : PoolFill samplePool _ := .fill [] [] sampleMarket _ _ rfl
    (.limit true [] [] sampleBuy ⟨2, 101, 202 / 100⟩ rfl (by decide +kernel)
      ⟨by decide +kernel, by decide +kernel, by decide +kernel, by decide +kernel⟩)
  exact ⟨_, hfill, by decide +kernel,
    (admission_sound samplePool _ samplePool_wellFormed (by decide +kernel) (.single hfill)).1⟩

/-- A buy of a hundredth. -/
def smallBuy : DerivativeLimitOrder ℚ := { sampleBuy with fillable := 1 / 100 }

/-- The small buy is admitted beside the first, and then the first is filled. -/
theorem pool_never_liquidatable_sample : ∃ pool' pool'', PoolStep samplePool pool' ∧
    PoolStep pool' pool'' ∧ pool''.quoteBalance = -702 / 100 ∧
    pool''.snapshot.isLiquidatable = false := by
  have hmarket := samplePool_wellFormed.markets sampleMarket List.mem_cons_self
  have hplace : PoolStep samplePool
      { samplePool with markets := [sampleMarket.placeLimitOrder true smallBuy] } :=
    .place [] [] sampleMarket true smallBuy (241401 / 10000) rfl (by decide +kernel)
      { hmarket with limitOrder := by decide +kernel } (by decide +kernel)
  have hfill : PoolStep
      { samplePool with markets := [sampleMarket.placeLimitOrder true smallBuy] } _ :=
    .fill _ (.fill [] [] (sampleMarket.placeLimitOrder true smallBuy) _ _ rfl
      (.limit true [] [smallBuy] sampleBuy ⟨2, 101, 202 / 100⟩ rfl (by decide +kernel)
        ⟨by decide +kernel, by decide +kernel, by decide +kernel, by decide +kernel⟩))
  exact ⟨_, _, hplace, hfill, by decide +kernel, pool_never_liquidatable samplePool_wellFormed
    (by decide +kernel) ((Relation.ReflTransGen.single hplace).tail hfill)⟩

/-! ## An atomic sale -/

/-- An atomic sale of 1 for at least 100. -/
def atomicSale : DerivativeMarketOrder ℚ :=
  { orderInfo := { subaccountID := 1, feeRecipient := 0, price := 100, quantity := 1
                   cid := "" }
    orderType := .sellAtomic, margin := 10, marginHold := 0, orderHash := 1 }

/-- A fee of a twentieth, thirty times that for atomic orders. -/
def atomicMarket (order : Option (DerivativeMarketOrder ℚ)) : PoolMarket ℚ :=
  { sampleMarket with
    market := { sampleMarket.market with takerFeeRate := 1 / 20 }
    atomicFeeMultiplier := 30
    limitOrders := fun _ => []
    marketOrder := fun isBuy => if isBuy then none else order }

/-- A pool with a balance of 160. -/
def atomicPool (order : Option (DerivativeMarketOrder ℚ)) : CrossPool ℚ :=
  ⟨160, 0, 1 / 2, 0, [atomicMarket order]⟩

/-- **A BETTER PRICE LIQUIDATES**: the sale is admitted with a lock of 160. It is filled at 111,
    where the fee is one and a half times that, and the equity left is less than the
    maintenance margin. -/
theorem atomic_sale_liquidatable :
    reserveDerivativeOrderMargin (atomicPool none) (atomicMarket none) false 100 1 30 = .ok 160 ∧
      (atomicPool (some atomicSale)).snapshot.orderLockRequirement ≤
        (atomicPool (some atomicSale)).snapshot.equityAdmission ∧
      ∃ pool', PoolFill (atomicPool (some atomicSale)) pool' ∧
        pool'.snapshot.isLiquidatable = true := by
  have hfill : PoolFill (atomicPool (some atomicSale)) _ :=
    .fill [] [] (atomicMarket (some atomicSale)) _ _ rfl
      (.market false atomicSale ⟨1, 111, 333 / 2⟩ rfl (by decide +kernel)
        ⟨by decide +kernel, by decide +kernel, by decide +kernel, by decide +kernel⟩)
  exact ⟨by decide +kernel, by decide +kernel, _, hfill, by decide +kernel⟩

end ExchangeCrossAdmission
