import InjectiveCore.ExchangeDerivativeFillProofs

/-!
# The snapshot of a cross-margin pool — equity and what the orders lock

A cross-margin pool is one deposit behind all positions and orders of a subaccount in a
quote denom. Its snapshot (`risk/snapshot.go`, `risk/helpers.go`) compares two sums over
the markets: the **equity**, made of the balance, the margins of the positions and their
profit at the mark prices, and the **order lock requirement**, made of the initial margin
of the worst exposure the open orders can lead to, what they lose against the mark price
when they are filled, and their fees.

The code accumulates seven numbers market by market and order by order. With exact
arithmetic they are sums of what each market adds (`CrossPool.snapshot_eq`).
-/

namespace ExchangeCrossAdmission

open DecArith ExchangePosition ExchangeFees ExchangeDerivativeFill

variable {D : Type} [DecArith D]

/-! ## Helpers -/

/-- `ComputeEntryLoss`. -/
def computeEntryLoss (isBuy : Bool) (orderPrice markPrice qty : D) : D :=
  let diff := if isBuy then orderPrice - markPrice else markPrice - orderPrice
  if 0 < diff then mul diff qty else 0

/-- `ComputeAbsWorstExposure`. -/
def computeAbsWorstExposure (signedPosQty buyQty sellQty : D) : D :=
  max |signedPosQty + buyQty| |signedPosQty - sellQty|

/-- `WorstCaseFeeRate`. -/
def worstCaseFeeRate (market : DerivativeMarket D) (atomicMultiplier : D) : D :=
  let rate := max 0 (max market.makerFeeRate market.takerFeeRate)
  if one < atomicMultiplier then mul rate atomicMultiplier else rate

/-- `EffectiveUPnL`. -/
def effectiveUPnL (uPnL positiveHaircut : D) : D :=
  if ¬0 < uPnL then uPnL else mul uPnL (one - positiveHaircut)

/-! ## The pool -/

/-- A market of the pool: its parameters, the position of the subaccount, its limit
    orders, and its market order of the block, by side. -/
structure PoolMarket (D : Type) where
  market : DerivativeMarket D
  maintenanceMarginRatio : D
  atomicFeeMultiplier : D
  markPrice : D
  funding : Option (PerpetualMarketFunding D)
  position : Option (Position D)
  limitOrders : Bool → List (DerivativeLimitOrder D)
  marketOrder : Bool → Option (DerivativeMarketOrder D)

/-- A cross-margin pool. The balance is in chain format. -/
structure CrossPool (D : Type) where
  quoteBalance : D
  quoteDecimals : ℕ
  positiveUPnLHaircutRate : D
  feesBuffer : D
  markets : List (PoolMarket D)

namespace PoolMarket

/-- `AggregateVanillaQuantity` of the orderbook metadata. -/
def aggregateVanillaQuantity (m : PoolMarket D) (isBuy : Bool) : D :=
  ((m.limitOrders isBuy).map (fun o => if o.isReduceOnly then 0 else o.fillable)).sum

/-- The transient market order of a side, as far as it is vanilla and not empty. -/
def vanillaMarketOrder (m : PoolMarket D) (isBuy : Bool) : Option (DerivativeMarketOrder D) :=
  (m.marketOrder isBuy).filter (fun o => !o.isReduceOnly && decide (o.orderInfo.quantity ≠ 0))

/-- The fee rate reserved for a market order. -/
def marketOrderFeeRate (m : PoolMarket D) (o : DerivativeMarketOrder D) : D :=
  let feeRateWorst := worstCaseFeeRate m.market one
  if o.orderType.isAtomic then mul feeRateWorst m.atomicFeeMultiplier else feeRateWorst

/-- The vanilla quantity of a side. -/
def openQuantity (m : PoolMarket D) (isBuy : Bool) : D :=
  m.aggregateVanillaQuantity isBuy +
    ((m.vanillaMarketOrder isBuy).map (·.orderInfo.quantity)).getD 0

end PoolMarket

/-! ## The snapshot -/

/-- `snapshotAggregator`. -/
structure SnapshotAggregator (D : Type) where
  positionMargin : D
  uPnL : D
  imPositions : D
  mmPositions : D
  imWithOrders : D
  entryLoss : D
  feeReserve : D

namespace SnapshotAggregator

/-- `init`. -/
def init : SnapshotAggregator D := ⟨0, 0, 0, 0, 0, 0, 0⟩

/-- `addPosition`: the aggregate and the signed quantity of the position. -/
def addPosition (a : SnapshotAggregator D) (m : PoolMarket D) : SnapshotAggregator D × D :=
  match m.position with
  | none => (a, 0)
  | some position =>
    if position.quantity = 0 then (a, 0)
    else
      let posCopy := position.applyFunding m.funding
      let notionalAbs := mul |posCopy.quantity| m.markPrice
      ({ a with
         positionMargin := a.positionMargin + posCopy.margin
         uPnL := a.uPnL + posCopy.getPayoutFromPnl m.markPrice posCopy.quantity
         imPositions := a.imPositions + mul m.market.initialMarginRatio notionalAbs
         mmPositions := a.mmPositions + mul m.maintenanceMarginRatio notionalAbs },
        posCopy.getSignedPositionQuantity)

/-- Entry loss and fee reserve of one order. -/
def addOrder (a : SnapshotAggregator D) (isBuy : Bool) (price markPrice qty feeRate : D) :
    SnapshotAggregator D :=
  { a with
    entryLoss := a.entryLoss + computeEntryLoss isBuy price markPrice qty
    feeReserve := a.feeReserve + mul (mul feeRate price) qty }

/-- The limit orders of one side. -/
def addLimitOrders (m : PoolMarket D) (isBuy : Bool) (a : SnapshotAggregator D) :
    SnapshotAggregator D :=
  (m.limitOrders isBuy).foldl (fun a o =>
    if o.isReduceOnly ∨ o.fillable = 0 then a
    else a.addOrder isBuy o.orderInfo.price m.markPrice o.fillable
      (worstCaseFeeRate m.market one)) a

/-- `addMarketOrders`, for one side. -/
def addMarketOrder (m : PoolMarket D) (isBuy : Bool) (a : SnapshotAggregator D) :
    SnapshotAggregator D :=
  match m.vanillaMarketOrder isBuy with
  | none => a
  | some o => a.addOrder isBuy o.orderInfo.price m.markPrice o.orderInfo.quantity
      (m.marketOrderFeeRate o)

/-- `addOrders`. -/
def addOrders (a : SnapshotAggregator D) (m : PoolMarket D) (signedPosQty : D) :
    SnapshotAggregator D :=
  let a := addLimitOrders m false (addLimitOrders m true a)
  let a := addMarketOrder m false (addMarketOrder m true a)
  let absWorst :=
    computeAbsWorstExposure signedPosQty (m.openQuantity true) (m.openQuantity false)
  { a with
    imWithOrders := a.imWithOrders +
      mul (mul m.market.initialMarginRatio m.markPrice) absWorst }

/-- What a market adds. -/
def addMarket (a : SnapshotAggregator D) (m : PoolMarket D) : SnapshotAggregator D :=
  let withPosition := a.addPosition m
  withPosition.1.addOrders m withPosition.2

end SnapshotAggregator

/-- `CrossPoolSnapshot`. -/
structure CrossPoolSnapshot (D : Type) where
  quoteBalance : D
  positionMarginTotal : D
  unrealizedPnl : D
  unrealizedPnlEff : D
  equityAdmission : D
  equityLiquidation : D
  initialMarginTotal : D
  maintenanceMarginTotal : D
  initialMarginWithOrdersTotal : D
  entryLossTotal : D
  feeReserveTotal : D
  orderLockRequirement : D
  positiveUPnLHaircutRate : D
  healthFactor : Option D

/-- `finalise`. -/
def SnapshotAggregator.finalise (a : SnapshotAggregator D)
    (positiveHaircut feesBuffer quoteBalance : D) : CrossPoolSnapshot D :=
  let uPnLEff := effectiveUPnL a.uPnL positiveHaircut
  let equityLiquidation := quoteBalance + a.positionMargin + a.uPnL - feesBuffer
  { quoteBalance := quoteBalance
    positionMarginTotal := a.positionMargin
    unrealizedPnl := a.uPnL
    unrealizedPnlEff := uPnLEff
    equityAdmission := quoteBalance + a.positionMargin + uPnLEff - feesBuffer
    equityLiquidation := equityLiquidation
    initialMarginTotal := a.imPositions
    maintenanceMarginTotal := a.mmPositions
    initialMarginWithOrdersTotal := a.imWithOrders
    entryLossTotal := a.entryLoss
    feeReserveTotal := a.feeReserve
    orderLockRequirement := a.imWithOrders + a.entryLoss + a.feeReserve
    positiveUPnLHaircutRate := positiveHaircut
    healthFactor :=
      if 0 < a.mmPositions then some (quo equityLiquidation a.mmPositions) else none }

/-- `BuildCrossPoolSnapshot`. -/
def CrossPool.snapshot (pool : CrossPool D) : CrossPoolSnapshot D :=
  (pool.markets.foldl SnapshotAggregator.addMarket .init).finalise
    pool.positiveUPnLHaircutRate pool.feesBuffer
    (fromChainFormat pool.quoteBalance pool.quoteDecimals)

/-- The condition of a liquidation (`cancelOrdersAndVerifyLiquidatable`). -/
def CrossPoolSnapshot.isLiquidatable (s : CrossPoolSnapshot D) : Bool :=
  !(decide (s.maintenanceMarginTotal = 0) ||
    decide (s.maintenanceMarginTotal ≤ s.equityLiquidation))

/-! ## What a market adds to the snapshot -/

namespace PoolMarket

/-- The position as the snapshot reads it. -/
def fundedPosition (m : PoolMarket ℚ) : Option (Position ℚ) :=
  match m.position with
  | none => none
  | some p => if p.quantity = 0 then none else some (p.applyFunding m.funding)

/-- The margin of the position. -/
def positionMargin (m : PoolMarket ℚ) : ℚ := (m.fundedPosition.map (·.margin)).getD 0

/-- The profit of the position at the mark price. -/
def uPnL (m : PoolMarket ℚ) : ℚ :=
  (m.fundedPosition.map (fun p => p.getPayoutFromPnl m.markPrice p.quantity)).getD 0

/-- The signed quantity of the position. -/
def signedQuantity (m : PoolMarket ℚ) : ℚ :=
  (m.fundedPosition.map (·.getSignedPositionQuantity)).getD 0

/-- The margin of the position at a ratio. -/
def marginAt (m : PoolMarket ℚ) (ratio : ℚ) : ℚ := ratio * (|m.signedQuantity| * m.markPrice)

/-- What an order locks per unit: its loss against the mark price and its fee. -/
def unitCost (m : PoolMarket ℚ) (isBuy : Bool) (price feeRate : ℚ) : ℚ :=
  max 0 (if isBuy then price - m.markPrice else m.markPrice - price) + feeRate * price

/-- What the limit orders of a side lock. -/
def limitLock (m : PoolMarket ℚ) (isBuy : Bool) : ℚ :=
  ((m.limitOrders isBuy).map (fun o => if o.isReduceOnly then 0 else
    m.unitCost isBuy o.orderInfo.price (worstCaseFeeRate m.market one) * o.fillable)).sum

/-- What the market order of a side locks. -/
def marketLock (m : PoolMarket ℚ) (isBuy : Bool) : ℚ :=
  ((m.vanillaMarketOrder isBuy).map (fun o =>
    m.unitCost isBuy o.orderInfo.price (m.marketOrderFeeRate o) * o.orderInfo.quantity)).getD 0

/-- The initial margin of the worst exposure. -/
def exposureMargin (m : PoolMarket ℚ) : ℚ :=
  m.market.initialMarginRatio * m.markPrice *
    computeAbsWorstExposure m.signedQuantity (m.openQuantity true) (m.openQuantity false)

/-- What the orders of a side lock. -/
def sideLock (m : PoolMarket ℚ) (isBuy : Bool) : ℚ := m.limitLock isBuy + m.marketLock isBuy

/-- What position and orders lock. -/
def lock (m : PoolMarket ℚ) : ℚ := m.exposureMargin + (m.sideLock true + m.sideLock false)

end PoolMarket

theorem computeEntryLoss_eq (isBuy : Bool) (price mark qty : ℚ) :
    computeEntryLoss isBuy price mark qty =
      max 0 (if isBuy then price - mark else mark - price) * qty := by
  simp only [computeEntryLoss, mul_rat]
  set diff := if isBuy then price - mark else mark - price
  by_cases hpos : 0 < diff
  · rw [if_pos hpos, max_eq_right hpos.le]
  · rw [if_neg hpos, max_eq_left (not_lt.mp hpos), zero_mul]

namespace SnapshotAggregator

/-- The order lock requirement. -/
def lock (a : SnapshotAggregator ℚ) : ℚ := a.imWithOrders + a.entryLoss + a.feeReserve

@[simp] theorem lock_init : (init : SnapshotAggregator ℚ).lock = 0 := by
  rw [lock, init, add_zero, add_zero]

/-- Only entry loss and fee reserve changed, together by `cost`. -/
structure AddsCost (a b : SnapshotAggregator ℚ) (cost : ℚ) : Prop where
  frame : b = { a with entryLoss := b.entryLoss, feeReserve := b.feeReserve }
  cost : b.entryLoss + b.feeReserve = a.entryLoss + a.feeReserve + cost

theorem AddsCost.refl (a : SnapshotAggregator ℚ) : AddsCost a a 0 := ⟨rfl, (add_zero _).symm⟩

variable {a b c : SnapshotAggregator ℚ}

theorem AddsCost.trans {x y : ℚ} (hab : AddsCost a b x) (hbc : AddsCost b c y) :
    AddsCost a c (x + y) := by
  refine ⟨?_, by rw [hbc.cost, hab.cost, add_assoc]⟩
  rw [hbc.frame, hab.frame]

section Costs

variable (a : SnapshotAggregator ℚ) (m : PoolMarket ℚ) (isBuy : Bool)

theorem addOrder_addsCost (price qty feeRate : ℚ) :
    AddsCost a (a.addOrder isBuy price m.markPrice qty feeRate)
      (m.unitCost isBuy price feeRate * qty) := by
  refine ⟨rfl, ?_⟩
  simp only [addOrder, computeEntryLoss_eq, PoolMarket.unitCost, mul_rat]
  ring

theorem addLimitOrders_addsCost : AddsCost a (addLimitOrders m isBuy a) (m.limitLock isBuy) := by
  rw [addLimitOrders, PoolMarket.limitLock]
  induction m.limitOrders isBuy generalizing a with
  | nil => exact .refl a
  | cons o rest ih =>
    rw [List.foldl_cons, List.map_cons, List.sum_cons]
    refine .trans ?_ (ih _)
    by_cases hreduce : o.isReduceOnly = true
    · rw [if_pos (Or.inl hreduce), if_pos hreduce]
      exact .refl a
    · rw [if_neg hreduce]
      by_cases hempty : o.fillable = 0
      · rw [if_pos (Or.inr hempty), hempty, mul_zero]
        exact .refl a
      · rw [if_neg (not_or.mpr ⟨hreduce, hempty⟩)]
        exact addOrder_addsCost a m isBuy _ _ _

theorem addMarketOrder_addsCost : AddsCost a (addMarketOrder m isBuy a) (m.marketLock isBuy) := by
  rw [addMarketOrder, PoolMarket.marketLock]
  cases m.vanillaMarketOrder isBuy with
  | none => exact .refl a
  | some o => exact addOrder_addsCost a m isBuy _ _ _

end Costs

/-- What a market adds to an aggregate. -/
structure Adds (a b : SnapshotAggregator ℚ)
    (positionMargin uPnL imPositions mmPositions lock : ℚ) : Prop where
  positionMargin : b.positionMargin = a.positionMargin + positionMargin
  uPnL : b.uPnL = a.uPnL + uPnL
  imPositions : b.imPositions = a.imPositions + imPositions
  mmPositions : b.mmPositions = a.mmPositions + mmPositions
  lock : b.lock = a.lock + lock

theorem Adds.refl (a : SnapshotAggregator ℚ) : Adds a a 0 0 0 0 0 := by
  constructor <;> exact (add_zero _).symm

theorem Adds.trans {x₁ x₂ x₃ x₄ x₅ y₁ y₂ y₃ y₄ y₅ : ℚ} (hab : Adds a b x₁ x₂ x₃ x₄ x₅)
    (hbc : Adds b c y₁ y₂ y₃ y₄ y₅) :
    Adds a c (x₁ + y₁) (x₂ + y₂) (x₃ + y₃) (x₄ + y₄) (x₅ + y₅) where
  positionMargin := by rw [hbc.positionMargin, hab.positionMargin, add_assoc]
  uPnL := by rw [hbc.uPnL, hab.uPnL, add_assoc]
  imPositions := by rw [hbc.imPositions, hab.imPositions, add_assoc]
  mmPositions := by rw [hbc.mmPositions, hab.mmPositions, add_assoc]
  lock := by rw [hbc.lock, hab.lock, add_assoc]

theorem addOrders_adds (a : SnapshotAggregator ℚ) (m : PoolMarket ℚ) :
    Adds a (a.addOrders m m.signedQuantity) 0 0 0 0 m.lock := by
  have hcost := (((addLimitOrders_addsCost a m true).trans
    (addLimitOrders_addsCost _ m false)).trans (addMarketOrder_addsCost _ m true)).trans
      (addMarketOrder_addsCost _ m false)
  set c := addMarketOrder m false (addMarketOrder m true
    (addLimitOrders m false (addLimitOrders m true a))) with hc
  have hframe := hcost.frame
  have hsum := hcost.cost
  simp only [addOrders, ← hc]
  rw [hframe]
  constructor
  · exact (add_zero _).symm
  · exact (add_zero _).symm
  · exact (add_zero _).symm
  · exact (add_zero _).symm
  · simp only [lock, PoolMarket.lock, PoolMarket.sideLock, PoolMarket.exposureMargin, mul_rat]
    linarith

/-- The position of a market adds its margin, its profit and what both margins need. -/
theorem addPosition_adds (a : SnapshotAggregator ℚ) (m : PoolMarket ℚ) :
    (a.addPosition m).2 = m.signedQuantity ∧
      Adds a (a.addPosition m).1 m.positionMargin m.uPnL
        (m.marginAt m.market.initialMarginRatio) (m.marginAt m.maintenanceMarginRatio) 0 := by
  have hnone (h : m.fundedPosition = none) (hadd : a.addPosition m = (a, 0)) :
      (a.addPosition m).2 = m.signedQuantity ∧
        Adds a (a.addPosition m).1 m.positionMargin m.uPnL
          (m.marginAt m.market.initialMarginRatio) (m.marginAt m.maintenanceMarginRatio) 0 := by
    have hsigned : m.signedQuantity = 0 := by rw [PoolMarket.signedQuantity, h]; rfl
    have hmargin (ratio : ℚ) : m.marginAt ratio = 0 := by
      rw [PoolMarket.marginAt, hsigned, abs_zero, zero_mul, mul_zero]
    rw [hadd, hsigned, hmargin, hmargin, PoolMarket.positionMargin, PoolMarket.uPnL, h]
    exact ⟨rfl, .refl a⟩
  cases hm : m.position with
  | none => exact hnone (by rw [PoolMarket.fundedPosition, hm]) (by rw [addPosition, hm])
  | some p =>
    by_cases hzero : p.quantity = 0
    · exact hnone (by simp only [PoolMarket.fundedPosition, hm, if_pos hzero])
        (by simp only [addPosition, hm, if_pos hzero])
    · have habs : |(p.applyFunding m.funding).getSignedPositionQuantity| = |p.quantity| := by
        rw [signed_applyFunding, Position.getSignedPositionQuantity]
        split
        · rfl
        · exact abs_neg _
      have hposition : m.fundedPosition = some (p.applyFunding m.funding) := by
        simp only [PoolMarket.fundedPosition, hm, if_neg hzero]
      simp only [addPosition, hm, if_neg hzero, PoolMarket.positionMargin, PoolMarket.uPnL,
        PoolMarket.marginAt, PoolMarket.signedQuantity, hposition, Option.map_some,
        Option.getD_some, habs, applyFunding_quantity, mul_rat, true_and]
      exact ⟨rfl, rfl, rfl, rfl, (add_zero _).symm⟩

/-- **A MARKET** adds what its position and its orders add. -/
theorem addMarket_adds (a : SnapshotAggregator ℚ) (m : PoolMarket ℚ) :
    Adds a (a.addMarket m) m.positionMargin m.uPnL (m.marginAt m.market.initialMarginRatio)
      (m.marginAt m.maintenanceMarginRatio) m.lock := by
  obtain ⟨hsigned, hposition⟩ := addPosition_adds a m
  have horders := addOrders_adds (a.addPosition m).1 m
  rw [← hsigned] at horders
  have hboth := hposition.trans horders
  rw [add_zero, add_zero, add_zero, add_zero, zero_add] at hboth
  exact hboth

theorem foldl_addMarket_adds (markets : List (PoolMarket ℚ)) (a : SnapshotAggregator ℚ) :
    Adds a (markets.foldl addMarket a) (markets.map (·.positionMargin)).sum
      (markets.map (·.uPnL)).sum
      (markets.map (fun m => m.marginAt m.market.initialMarginRatio)).sum
      (markets.map (fun m => m.marginAt m.maintenanceMarginRatio)).sum
      (markets.map (·.lock)).sum := by
  induction markets generalizing a with
  | nil => exact .refl a
  | cons m rest ih => exact (addMarket_adds a m).trans (ih (a.addMarket m))

end SnapshotAggregator

theorem CrossPool.snapshot_eq (pool : CrossPool ℚ) :
    let balance := fromChainFormat pool.quoteBalance pool.quoteDecimals
    let margin := (pool.markets.map (·.positionMargin)).sum
    let uPnL := (pool.markets.map (·.uPnL)).sum
    pool.snapshot.equityAdmission =
        balance + margin + effectiveUPnL uPnL pool.positiveUPnLHaircutRate - pool.feesBuffer ∧
      pool.snapshot.equityLiquidation = balance + margin + uPnL - pool.feesBuffer ∧
      pool.snapshot.orderLockRequirement = (pool.markets.map (·.lock)).sum ∧
      pool.snapshot.initialMarginTotal =
        (pool.markets.map (fun m => m.marginAt m.market.initialMarginRatio)).sum ∧
      pool.snapshot.maintenanceMarginTotal =
        (pool.markets.map (fun m => m.marginAt m.maintenanceMarginRatio)).sum := by
  have hadds := SnapshotAggregator.foldl_addMarket_adds pool.markets .init
  have hmargin := hadds.positionMargin.trans (zero_add _)
  have huPnL := hadds.uPnL.trans (zero_add _)
  have hlock := hadds.lock
  rw [SnapshotAggregator.lock_init, zero_add] at hlock
  simp only [snapshot, SnapshotAggregator.finalise, hmargin, huPnL, true_and]
  exact ⟨hlock, hadds.imPositions.trans (zero_add _), hadds.mmPositions.trans (zero_add _)⟩

end ExchangeCrossAdmission
