import InjectiveCore.ExchangeCrossAdmissionProofs
import InjectiveCore.ExchangeDerivativeHoldProofs
import InjectiveCore.TransitionProofs

/-!
# The tracked order lock — admissions and prunes against a rebuild

The order lock requirement of a cross-margin pool is a sum over all its orders. The chain
does not sum it anew for every order. An admission adds what one order locks to a cached
snapshot (`ReserveDerivativeOrderMargin`), and while orders are matched each order that is
pruned takes its part off a copy of the requirement (`DecrementLastLookOLROnPool`).

Both updates clamp what they compute at zero. With exact arithmetic no clamp ever acts,
because the worst exposure `max |p + b| |p - s|` grows with either side's quantity
whatever the sign of the position (`MarketLockState.absWorst_le_add`), and so the tracked
requirement is the one a rebuild gives (`order_lock_eq_rebuild`), along the admissions of a
block (`TrackedPool.exact_run`) and the prunes of a matching stage
(`MatchingStage.exact_foldl`).
-/

namespace ExchangeCrossAdmission

open DecArith ExchangePosition ExchangeFees ExchangeDerivativeFill ExchangeDerivativeHold

variable {D : Type} [DecArith D]

/-! ## The lock state of a market -/

/-- `MarketLockState`. -/
structure MarketLockState (D : Type) where
  signedPosQty : D
  buyQty : D
  sellQty : D

namespace MarketLockState

/-- The worst exposure. -/
def absWorst (mls : MarketLockState D) : D :=
  computeAbsWorstExposure mls.signedPosQty mls.buyQty mls.sellQty

/-- The quantity of a side. -/
def sideQty (mls : MarketLockState D) (isBuy : Bool) : D :=
  if isBuy then mls.buyQty else mls.sellQty

/-- One more order. -/
def add (mls : MarketLockState D) (isBuy : Bool) (qty : D) : MarketLockState D :=
  if isBuy then { mls with buyQty := mls.buyQty + qty }
  else { mls with sellQty := mls.sellQty + qty }

/-- One order less. -/
def remove (mls : MarketLockState D) (isBuy : Bool) (qty : D) : MarketLockState D :=
  if isBuy then { mls with buyQty := max 0 (mls.buyQty - qty) }
  else { mls with sellQty := max 0 (mls.sellQty - qty) }

end MarketLockState

/-- `BuildMarketLockState`. -/
def PoolMarket.buildMarketLockState (m : PoolMarket D) : MarketLockState D where
  signedPosQty :=
    match m.position with
    | none => 0
    | some position =>
      if position.quantity = 0 then 0
      else if position.isLong then position.quantity else -position.quantity
  buyQty := m.openQuantity true
  sellQty := m.openQuantity false

/-- A negative number is set to zero. -/
def floorZero (x : D) : D := if x < 0 then 0 else x

/-! ## Admissions -/

/-- `ReserveDerivativeOrderMargin` on the snapshot it finds, for a vanilla order that is not
    conditional: the snapshot it caches. -/
def reserveOnSnapshot (snapshot : CrossPoolSnapshot D) (m : PoolMarket D) (isBuy : Bool)
    (px qty atomicMul : D) : Except AdmissionError (CrossPoolSnapshot D) :=
  if snapshot.equityLiquidation < snapshot.maintenanceMarginTotal then
    .error .maintenanceCheckFailed
  else
    let feeRateWorst := worstCaseFeeRate m.market atomicMul
    let entryLoss := computeEntryLoss isBuy px m.markPrice qty
    let feeReserve := mul (mul feeRateWorst px) qty
    let mls := m.buildMarketLockState
    let deltaAbsWorst := floorZero ((mls.add isBuy qty).absWorst - mls.absWorst)
    let deltaIMWithOrders := mul (mul m.market.initialMarginRatio m.markPrice) deltaAbsWorst
    let orderLockAfter :=
      snapshot.orderLockRequirement + deltaIMWithOrders + entryLoss + feeReserve
    if snapshot.equityAdmission < orderLockAfter then .error .admissionCheckFailed
    else
      .ok { snapshot with
        orderLockRequirement := orderLockAfter
        entryLossTotal := snapshot.entryLossTotal + entryLoss
        feeReserveTotal := snapshot.feeReserveTotal + feeReserve
        initialMarginWithOrdersTotal :=
          snapshot.initialMarginWithOrdersTotal + deltaIMWithOrders }

/-- A vanilla order that is not atomic, as message validation lets it through, for one of
    the markets of the pool. `isPlaced` says whether the checks after the reservation let
    it through as well. -/
structure Placement (D : Type) [DecArith D] where
  marketIndex : ℕ
  order : DerivativeOrder D
  orderHash : Hash
  isMarketOrder : Bool
  isPlaced : Bool
  price_nonneg : 0 ≤ order.orderInfo.price
  quantity_pos : 0 < order.orderInfo.quantity
  vanilla : ¬order.isReduceOnly
  notAtomic : order.orderType.isAtomic = false

namespace Placement

/-- The side of the order. -/
def isBuy (p : Placement D) : Bool := p.order.orderType.isBuy

/-- `NewDerivativeMarketOrder`. Cross margin holds no margin for it. -/
def marketOrder (p : Placement D) : DerivativeMarketOrder D :=
  { orderInfo := p.order.orderInfo, orderType := p.order.orderType, margin := p.order.margin
    marginHold := 0, orderHash := p.orderHash }

end Placement

/-- The market with the order placed in it. -/
def PoolMarket.place (m : PoolMarket D) (p : Placement D) : PoolMarket D :=
  if p.isMarketOrder then
    { m with marketOrder := Function.update m.marketOrder p.isBuy (some p.marketOrder) }
  else m.placeLimitOrder p.isBuy (newDerivativeLimitOrder p.order p.orderHash)

/-- The pool with one of its markets exchanged. -/
def CrossPool.setMarket (pool : CrossPool D) (index : ℕ) (m : PoolMarket D) : CrossPool D :=
  { pool with markets := pool.markets.set index m }

/-- Why an order is not placed. -/
inductive PlacementError where
  | derivativeMarketNotFound
  | marketOrderAlreadyExists
  | insufficientMargin (error : AdmissionError)
  deriving DecidableEq, Repr

/-- A pool, and the snapshot of it that the block has cached. -/
structure TrackedPool (D : Type) where
  pool : CrossPool D
  cached : Option (CrossPoolSnapshot D)

namespace TrackedPool

/-- `GetOrBuildCrossPoolSnapshot`. -/
def getOrBuildCrossPoolSnapshot (t : TrackedPool D) : CrossPoolSnapshot D :=
  t.cached.getD t.pool.snapshot

/-- Place an order: at most one market order per market and block, the reservation on the
    cached snapshot, and the eviction of that snapshot if a later check refuses the order. -/
def place (p : Placement D) (t : TrackedPool D) : Except PlacementError (TrackedPool D) :=
  match t.pool.markets[p.marketIndex]? with
  | none => .error .derivativeMarketNotFound
  | some m =>
    if p.isMarketOrder && ((m.marketOrder true).isSome || (m.marketOrder false).isSome) then
      .error .marketOrderAlreadyExists
    else
      match reserveOnSnapshot t.getOrBuildCrossPoolSnapshot m p.isBuy
          p.order.orderInfo.price p.order.orderInfo.quantity one with
      | .error e => .error (.insufficientMargin e)
      | .ok snapshot =>
        if p.isPlaced then
          .ok ⟨t.pool.setMarket p.marketIndex (m.place p), some snapshot⟩
        else .ok { t with cached := none }

end TrackedPool

/-! ## Prunes -/

/-- Which order of a side is pruned. -/
inductive OrderSlot where
  | limit (index : ℕ)
  | market
  deriving DecidableEq, Repr

/-- A pruned order. -/
structure Prune where
  marketIndex : ℕ
  isBuy : Bool
  slot : OrderSlot
  deriving DecidableEq, Repr

namespace PoolMarket

/-- Price and remaining quantity of an order, if it is vanilla and something remains. -/
def remainingOrder (m : PoolMarket D) (isBuy : Bool) : OrderSlot → Option (D × D)
  | .limit index =>
    ((m.limitOrders isBuy)[index]?.filter
      (fun o => !o.isReduceOnly && decide (0 < o.fillable))).map
        (fun o => (o.orderInfo.price, o.fillable))
  | .market =>
    (m.vanillaMarketOrder isBuy).map (fun o => (o.orderInfo.price, o.orderInfo.quantity))

/-- The market without an order. -/
def removeOrder (m : PoolMarket D) (isBuy : Bool) : OrderSlot → PoolMarket D
  | .limit index =>
    { m with
      limitOrders := Function.update m.limitOrders isBuy ((m.limitOrders isBuy).eraseIdx index) }
  | .market => { m with marketOrder := Function.update m.marketOrder isBuy none }

end PoolMarket

/-- `CrossMarginLastLookPoolState`: the requirement, and the lock states of the markets in
    which something was pruned. -/
structure LastLookPool (D : Type) where
  orderLockRequirement : D
  marketLockStateByID : ℕ → Option (MarketLockState D)

namespace LastLookPool

/-- The lock state of a market, built from the store when the stage has none yet. -/
def marketLockState (pool : LastLookPool D) (marketIndex : ℕ) (stored : PoolMarket D) :
    MarketLockState D :=
  (pool.marketLockStateByID marketIndex).getD stored.buildMarketLockState

/-- The requirement without an order, before it is floored. -/
def lockWithout (pool : LastLookPool D) (m : PoolMarket D) (before after : MarketLockState D)
    (isBuy : Bool) (qty px feeRateWorst : D) : D :=
  let entryLoss := computeEntryLoss isBuy px m.markPrice qty
  let feeReserve := mul (mul feeRateWorst px) qty
  let deltaAbsWorst := floorZero (before.absWorst - after.absWorst)
  let deltaIMDecrease := mul (mul m.market.initialMarginRatio m.markPrice) deltaAbsWorst
  pool.orderLockRequirement - deltaIMDecrease - entryLoss - feeReserve

/-- `DecrementLastLookOLROnPool`, for a market as the store has it. -/
def decrementLastLookOLROnPool (pool : LastLookPool D) (marketIndex : ℕ) (m : PoolMarket D)
    (isBuy : Bool) (qty px feeRateWorst : D) : LastLookPool D :=
  let mls := pool.marketLockState marketIndex m
  let after := mls.remove isBuy qty
  { orderLockRequirement := floorZero (pool.lockWithout m mls after isBuy qty px feeRateWorst)
    marketLockStateByID :=
      Function.update pool.marketLockStateByID marketIndex (some after) }

end LastLookPool

/-- A matching stage: the pool as it is stored all along, the last-look state, and the pool
    with the orders that are left. -/
structure MatchingStage (D : Type) where
  stored : CrossPool D
  lastLook : LastLookPool D
  remaining : CrossPool D

namespace MatchingStage

/-- The stage starts from a snapshot (`GetOrCreateLastLookPoolState`). -/
def start (pool : CrossPool D) : MatchingStage D :=
  ⟨pool, ⟨pool.snapshot.orderLockRequirement, fun _ => none⟩, pool⟩

/-- Prune an order (`DecrementLastLookOLR`); one that is not vanilla, or of which nothing
    remains, locks nothing. -/
def prune (s : MatchingStage D) (p : Prune) : MatchingStage D :=
  match s.stored.markets[p.marketIndex]?, s.remaining.markets[p.marketIndex]? with
  | some m, some r =>
    match r.remainingOrder p.isBuy p.slot with
    | none => s
    | some (px, qty) =>
      { s with
        lastLook := s.lastLook.decrementLastLookOLROnPool p.marketIndex m p.isBuy qty px
          (worstCaseFeeRate m.market one)
        remaining := s.remaining.setMarket p.marketIndex (r.removeOrder p.isBuy p.slot) }
  | _, _ => s

end MatchingStage

/-! ## The admission is the one on a fresh snapshot -/

theorem floorZero_of_nonneg {x : ℚ} (h : 0 ≤ x) : floorZero x = x := if_neg (not_lt.mpr h)

theorem PoolMarket.buildMarketLockState_signedPosQty (m : PoolMarket ℚ) :
    m.buildMarketLockState.signedPosQty = m.signedQuantity := by
  rw [m.signedQuantity_eq, buildMarketLockState]
  cases m.position with
  | none => rfl
  | some p =>
    by_cases hzero : p.quantity = 0
    · simp only [hzero, Option.map_some, Option.getD_some,
        Position.getSignedPositionQuantity, neg_zero, ite_self]
    · simp only [if_neg hzero, Option.map_some, Option.getD_some,
        Position.getSignedPositionQuantity]

/-! ## What one order locks -/

namespace MarketLockState

variable {mls : MarketLockState ℚ}

@[simp] theorem add_sideQty (isBuy : Bool) (qty : ℚ) :
    (mls.add isBuy qty).sideQty isBuy = mls.sideQty isBuy + qty := by
  cases isBuy <;> rfl

variable {qty : ℚ}

theorem remove_eq_add_neg {isBuy : Bool} (h : qty ≤ mls.sideQty isBuy) :
    mls.remove isBuy qty = mls.add isBuy (-qty) := by
  have hfloor : max 0 (mls.sideQty isBuy - qty) = mls.sideQty isBuy + -qty := by
    rw [max_eq_right (sub_nonneg.mpr h), sub_eq_add_neg]
  cases isBuy with
  | true => exact congrArg (fun buyQty => { mls with buyQty := buyQty }) hfloor
  | false => exact congrArg (fun sellQty => { mls with sellQty := sellQty }) hfloor

/-- **THE WORST EXPOSURE GROWS** with either side, whatever the sign of the position. -/
theorem absWorst_le_add (hbuy : 0 ≤ mls.buyQty) (hsell : 0 ≤ mls.sellQty) (isBuy : Bool)
    (hqty : 0 ≤ qty) : mls.absWorst ≤ (mls.add isBuy qty).absWorst := by
  cases isBuy with
  | true =>
    refine PoolMarket.computeAbsWorstExposure_le le_rfl ?_ hbuy hsell
    exact add_le_add_right (le_add_of_nonneg_right hqty) _
  | false =>
    refine PoolMarket.computeAbsWorstExposure_le ?_ le_rfl hbuy hsell
    exact sub_le_sub_left (le_add_of_nonneg_right hqty) _

end MarketLockState

namespace PoolMarket

theorem sideQty_buildMarketLockState (m : PoolMarket ℚ) (isBuy : Bool) :
    m.buildMarketLockState.sideQty isBuy = m.openQuantity isBuy := by
  cases isBuy <;> rfl

/-- Two states of a market that differ in the orders of one side: by `qty` in their
    quantity, by `cost` in what they lock. -/
structure DiffersBy (m m' : PoolMarket ℚ) (isBuy : Bool) (qty cost : ℚ) : Prop where
  market : m'.market = m.market
  markPrice : m'.markPrice = m.markPrice
  lockState : m'.buildMarketLockState = m.buildMarketLockState.add isBuy qty
  sideLock : m'.sideLock isBuy = m.sideLock isBuy + cost
  otherLock : m'.sideLock (!isBuy) = m.sideLock (!isBuy)

variable {m m' : PoolMarket ℚ} {isBuy : Bool} {qty cost : ℚ}

theorem DiffersBy.of_side (hmarket : m'.market = m.market) (hmark : m'.markPrice = m.markPrice)
    (hposition : m'.position = m.position)
    (hopen : m'.openQuantity isBuy = m.openQuantity isBuy + qty)
    (hother : m'.openQuantity (!isBuy) = m.openQuantity (!isBuy))
    (hlock : m'.sideLock isBuy = m.sideLock isBuy + cost)
    (hotherLock : m'.sideLock (!isBuy) = m.sideLock (!isBuy)) :
    DiffersBy m m' isBuy qty cost := by
  refine ⟨hmarket, hmark, ?_, hlock, hotherLock⟩
  cases isBuy with
  | true => simp only [buildMarketLockState, MarketLockState.add, if_true, hposition, hopen,
      show m'.openQuantity false = m.openQuantity false from hother]
  | false =>
    simp only [buildMarketLockState, MarketLockState.add, Bool.false_eq_true, if_false,
      hposition, hopen, show m'.openQuantity true = m.openQuantity true from hother]

theorem lock_eq (m : PoolMarket ℚ) :
    m.lock = m.market.initialMarginRatio * m.markPrice * m.buildMarketLockState.absWorst +
      (m.sideLock true + m.sideLock false) := by
  rw [lock, exposureMargin, MarketLockState.absWorst, m.buildMarketLockState_signedPosQty]
  rfl

theorem DiffersBy.lock_eq (h : DiffersBy m m' isBuy qty cost) :
    m'.lock = m.lock + m.market.initialMarginRatio * m.markPrice *
      ((m.buildMarketLockState.add isBuy qty).absWorst - m.buildMarketLockState.absWorst) +
        cost := by
  have hsides : m'.sideLock true + m'.sideLock false =
      m.sideLock true + m.sideLock false + cost := by
    have hside := h.sideLock
    have hother := h.otherLock
    cases isBuy
    · rw [Bool.not_false] at hother
      linarith
    · rw [Bool.not_true] at hother
      linarith
  rw [m'.lock_eq, m.lock_eq, h.market, h.markPrice, h.lockState, hsides]
  ring

/-- What an order locks beside the exposure. -/
def orderCost (m : PoolMarket ℚ) (isBuy : Bool) (px qty : ℚ) : ℚ :=
  m.unitCost isBuy px (worstCaseFeeRate m.market one) * qty

theorem orderCost_eq (m : PoolMarket ℚ) (isBuy : Bool) (px qty : ℚ) :
    computeEntryLoss isBuy px m.markPrice qty +
      worstCaseFeeRate m.market one * px * qty = m.orderCost isBuy px qty := by
  rw [computeEntryLoss_eq, orderCost, unitCost]
  ring

variable {orders : List (DerivativeLimitOrder ℚ)}

theorem differsBy_limitOrders
    (hqty : (orders.map (fun o => if o.isReduceOnly then 0 else o.fillable)).sum =
      m.aggregateVanillaQuantity isBuy + qty)
    (hcost : (orders.map (fun o => if o.isReduceOnly then 0 else
      m.orderCost isBuy o.orderInfo.price o.fillable)).sum = m.limitLock isBuy + cost) :
    DiffersBy m { m with limitOrders := Function.update m.limitOrders isBuy orders } isBuy
      qty cost := by
  set m' : PoolMarket ℚ :=
    { m with limitOrders := Function.update m.limitOrders isBuy orders } with hm'
  have hside : m'.limitOrders isBuy = orders := Function.update_self ..
  have hother : m'.limitOrders (!isBuy) = m.limitOrders (!isBuy) :=
    Function.update_of_ne (Bool.not_ne_self isBuy) ..
  refine .of_side rfl rfl rfl ?_ ?_ ?_ ?_
  · rw [openQuantity, aggregateVanillaQuantity, hside, hqty, add_right_comm]
    rfl
  · rw [openQuantity, aggregateVanillaQuantity, hother]
    rfl
  · rw [PoolMarket.sideLock, limitLock, hside, PoolMarket.sideLock, add_right_comm, ← hcost]
    rfl
  · rw [PoolMarket.sideLock, limitLock, hother]
    rfl

variable {order : Option (DerivativeMarketOrder ℚ)}

/-- A market without atomic orders, which are executed at once and not stored. -/
structure Plain (m : PoolMarket ℚ) : Prop extends m.WellFormed where
  notAtomic : ∀ isBuy o, m.marketOrder isBuy = some o → o.orderType.isAtomic = false

theorem marketOrderFeeRate_eq (m : PoolMarket ℚ) {o : DerivativeMarketOrder ℚ}
    (ho : o.orderType.isAtomic = false) :
    m.marketOrderFeeRate o = worstCaseFeeRate m.market one := by
  rw [marketOrderFeeRate, ho]
  rfl

theorem differsBy_marketOrder {vanilla : Option (DerivativeMarketOrder ℚ)}
    (hvanilla : order.filter
      (fun o => !o.isReduceOnly && decide (o.orderInfo.quantity ≠ 0)) = vanilla)
    (hqty : (vanilla.map (·.orderInfo.quantity)).getD 0 =
      ((m.vanillaMarketOrder isBuy).map (·.orderInfo.quantity)).getD 0 + qty)
    (hcost : (vanilla.map (fun o => m.unitCost isBuy o.orderInfo.price
      (m.marketOrderFeeRate o) * o.orderInfo.quantity)).getD 0 = m.marketLock isBuy + cost) :
    DiffersBy m { m with marketOrder := Function.update m.marketOrder isBuy order } isBuy
      qty cost := by
  set m' : PoolMarket ℚ :=
    { m with marketOrder := Function.update m.marketOrder isBuy order } with hm'
  have hself : m'.marketOrder isBuy = order := Function.update_self ..
  have hside : m'.vanillaMarketOrder isBuy = vanilla := by
    rw [vanillaMarketOrder, hself, hvanilla]
  have hother : m'.vanillaMarketOrder (!isBuy) = m.vanillaMarketOrder (!isBuy) :=
    congrArg (Option.filter _) (Function.update_of_ne (Bool.not_ne_self isBuy) ..)
  refine .of_side rfl rfl rfl ?_ ?_ ?_ ?_
  · rw [openQuantity, hside, hqty, ← add_assoc]
    rfl
  · rw [openQuantity, hother]
    rfl
  · rw [PoolMarket.sideLock, marketLock, hside, PoolMarket.sideLock, add_assoc, ← hcost]
    rfl
  · rw [PoolMarket.sideLock, marketLock, hother]
    rfl

/-- **PLACING** an order adds its quantity and its cost. -/
theorem differsBy_place (p : Placement ℚ)
    (hnone : p.isMarketOrder → m.marketOrder p.isBuy = none) :
    DiffersBy m (m.place p) p.isBuy p.order.orderInfo.quantity
      (m.orderCost p.isBuy p.order.orderInfo.price p.order.orderInfo.quantity) := by
  rw [place]
  by_cases hmarket : p.isMarketOrder = true
  · rw [if_pos hmarket]
    have hbefore : m.vanillaMarketOrder p.isBuy = none := by
      rw [vanillaMarketOrder, hnone hmarket, Option.filter_none]
    have hkeep : (!p.marketOrder.isReduceOnly &&
        decide (p.marketOrder.orderInfo.quantity ≠ 0)) = true := by
      have hvanilla : ¬p.marketOrder.isReduceOnly := p.vanilla
      rw [Bool.and_eq_true, decide_eq_true_eq]
      exact ⟨by simpa using hvanilla, p.quantity_pos.ne'⟩
    refine differsBy_marketOrder (Option.filter_some_pos hkeep) ?_ ?_
    · rw [hbefore]
      exact (zero_add _).symm
    · rw [marketLock, hbefore, Option.map_some, Option.getD_some,
        marketOrderFeeRate_eq m (o := p.marketOrder) p.notAtomic]
      exact (zero_add _).symm
  · rw [if_neg hmarket]
    have hvanilla : ¬(newDerivativeLimitOrder p.order p.orderHash).isReduceOnly := p.vanilla
    refine differsBy_limitOrders ?_ ?_
    · rw [List.map_append, List.sum_append, List.map_singleton, List.sum_singleton,
        if_neg hvanilla]
      rfl
    · rw [List.map_append, List.sum_append, List.map_singleton, List.sum_singleton,
        if_neg hvanilla]
      rfl

theorem sum_map_eraseIdx {α : Type} (g : α → ℚ) {l : List α} {i : ℕ} {x : α}
    (h : l[i]? = some x) : ((l.eraseIdx i).map g).sum = (l.map g).sum + -g x := by
  obtain ⟨hi, rfl⟩ := List.getElem?_eq_some_iff.mp h
  have hlen : i < (l.map g).length := (List.length_map g).symm ▸ hi
  rw [← List.CommMonoid.add_sum_eraseIdx hlen, List.getElem_map, List.eraseIdx_map,
    add_neg_cancel_comm]

variable (hm : m.Plain)
include hm

theorem Plain.update_limitOrders {isBuy : Bool}
    (horders : ∀ o ∈ orders, 0 ≤ o.orderInfo.price ∧ 0 < o.orderInfo.quantity ∧ 0 ≤ o.fillable) :
    Plain { m with limitOrders := Function.update m.limitOrders isBuy orders } := by
  refine { hm with limitOrder := fun side o ho => ?_ }
  change o ∈ Function.update m.limitOrders isBuy orders side at ho
  by_cases hside : side = isBuy
  · rw [hside, Function.update_self] at ho
    exact horders o ho
  · rw [Function.update_of_ne hside] at ho
    exact hm.limitOrder side o ho

theorem Plain.update_marketOrder {isBuy : Bool}
    (horder : ∀ o, order = some o → 0 ≤ o.orderInfo.price ∧ 0 < o.orderInfo.quantity ∧
      o.orderType.isAtomic = false) :
    Plain { m with marketOrder := Function.update m.marketOrder isBuy order } := by
  have hplain : ∀ side o, Function.update m.marketOrder isBuy order side = some o →
      0 ≤ o.orderInfo.price ∧ 0 < o.orderInfo.quantity ∧ o.orderType.isAtomic = false := by
    intro side o ho
    by_cases hside : side = isBuy
    · rw [hside, Function.update_self] at ho
      exact horder o ho
    · rw [Function.update_of_ne hside] at ho
      obtain ⟨hprice, hquantity, -⟩ := hm.marketOrder side o ho
      exact ⟨hprice, hquantity, hm.notAtomic side o ho⟩
  refine { hm with
    marketOrder := fun side o ho => ?_, notAtomic := fun side o ho => (hplain side o ho).2.2 }
  obtain ⟨hprice, hquantity, hatomic⟩ := hplain side o ho
  obtain ⟨hrate, hrate'⟩ := worstCaseFeeRate_bounds hm.toWellFormed
  refine ⟨hprice, hquantity, ?_⟩
  rw [← marketOrderFeeRate_eq m hatomic] at hrate hrate'
  exact ⟨hrate, fun _ => hrate'⟩

/-- What is known of an order that is pruned: a price, a quantity that its side has, and
    that the market without it locks that much less. -/
structure Removes (m m' : PoolMarket ℚ) (isBuy : Bool) (px qty : ℚ) : Prop where
  quantity_nonneg : 0 ≤ qty
  differsBy : DiffersBy m m' isBuy (-qty) (-m.orderCost isBuy px qty)
  plain : m'.Plain

variable {px : ℚ}

theorem removeOrder_limit {index : ℕ} (h : m.remainingOrder isBuy (.limit index) = some (px, qty)) :
    Removes m (m.removeOrder isBuy (.limit index)) isBuy px qty := by
  obtain ⟨o, hfilter, heq⟩ := Option.map_eq_some_iff.mp h
  obtain ⟨hget, hkeep⟩ := Option.filter_eq_some_iff.mp hfilter
  rw [Bool.and_eq_true, decide_eq_true_eq] at hkeep
  obtain ⟨hvanilla, hpos⟩ := hkeep
  have hvanilla : ¬o.isReduceOnly := by simpa using hvanilla
  rw [Prod.mk.injEq] at heq
  obtain ⟨rfl, rfl⟩ := heq
  refine ⟨hpos.le, ?_, ?_⟩
  · refine differsBy_limitOrders ?_ ?_
    · rw [sum_map_eraseIdx _ hget, if_neg hvanilla]
      rfl
    · rw [sum_map_eraseIdx _ hget, if_neg hvanilla]
      rfl
  · exact hm.update_limitOrders
      (fun o' ho' => hm.limitOrder isBuy o' (List.mem_of_mem_eraseIdx ho'))

theorem removeOrder_market (h : m.remainingOrder isBuy .market = some (px, qty)) :
    Removes m (m.removeOrder isBuy .market) isBuy px qty := by
  obtain ⟨o, hvanilla, heq⟩ := Option.map_eq_some_iff.mp h
  rw [Prod.mk.injEq] at heq
  obtain ⟨rfl, rfl⟩ := heq
  have hget : m.marketOrder isBuy = some o := (Option.filter_eq_some_iff.mp hvanilla).1
  refine ⟨(hm.marketOrder isBuy o hget).2.1.le, ?_, ?_⟩
  · refine differsBy_marketOrder (Option.filter_none _) ?_ ?_
    · rw [hvanilla]
      exact (add_neg_cancel _).symm
    · rw [marketLock, hvanilla, Option.map_some, Option.getD_some,
        marketOrderFeeRate_eq m (hm.notAtomic isBuy o hget)]
      exact (add_neg_cancel _).symm
  · exact hm.update_marketOrder (fun o' ho' => by cases ho')

/-- **REMOVING** an order takes off its quantity and its cost. -/
theorem removeOrder_removes {slot : OrderSlot} (h : m.remainingOrder isBuy slot = some (px, qty)) :
    Removes m (m.removeOrder isBuy slot) isBuy px qty := by
  cases slot with
  | limit index => exact removeOrder_limit hm h
  | market => exact removeOrder_market hm h

theorem lock_nonneg : 0 ≤ m.lock := by
  refine le_trans ?_ (marginAt_le_lock hm.toWellFormed)
  exact mul_nonneg hm.initialMarginRatio_nonneg (mul_nonneg (abs_nonneg _) hm.markPrice_nonneg)

theorem place_plain (p : Placement ℚ) : (m.place p).Plain := by
  rw [place]
  split
  · refine hm.update_marketOrder (fun o ho => ?_)
    cases ho
    exact ⟨p.price_nonneg, p.quantity_pos, p.notAtomic⟩
  · refine hm.update_limitOrders (fun o ho => ?_)
    rcases List.mem_append.mp ho with ho | ho
    · exact hm.limitOrder p.isBuy o ho
    · rw [List.mem_singleton.mp ho]
      exact ⟨p.price_nonneg, p.quantity_pos, p.quantity_pos.le⟩

end PoolMarket

/-! ## The pool -/

namespace CrossPool

theorem sum_map_set {α : Type} (g : α → ℚ) {l : List α} {i : ℕ} {x : α} (y : α)
    (h : l[i]? = some x) : ((l.set i y).map g).sum = (l.map g).sum + (g y - g x) := by
  obtain ⟨hi, rfl⟩ := List.getElem?_eq_some_iff.mp h
  rw [List.map_set, List.sum_set', dif_pos ((List.length_map g).symm ▸ hi), List.getElem_map,
    neg_add_eq_sub]

variable {pool : CrossPool ℚ} {m : PoolMarket ℚ}

theorem setMarket_orderLockRequirement {index : ℕ} {m' : PoolMarket ℚ}
    (h : pool.markets[index]? = some m) :
    (pool.setMarket index m').snapshot.orderLockRequirement =
      pool.snapshot.orderLockRequirement + (m'.lock - m.lock) := by
  obtain ⟨-, -, hlock, -, -⟩ := pool.snapshot_eq
  obtain ⟨-, -, hlock', -, -⟩ := (pool.setMarket index m').snapshot_eq
  rw [hlock, hlock']
  exact sum_map_set _ m' h

/-- A pool of such markets. -/
def Plain (pool : CrossPool ℚ) : Prop := ∀ m ∈ pool.markets, m.Plain

theorem setMarket_plain (hpool : pool.Plain) (index : ℕ) (hm : m.Plain) :
    (pool.setMarket index m).Plain := by
  intro m' hm'
  rcases List.mem_or_eq_of_mem_set hm' with hmem | rfl
  · exact hpool m' hmem
  · exact hm

theorem orderLockRequirement_nonneg (hpool : pool.Plain) :
    0 ≤ pool.snapshot.orderLockRequirement := by
  obtain ⟨-, -, hlock, -, -⟩ := pool.snapshot_eq
  rw [hlock]
  refine List.sum_nonneg (fun x hx => ?_)
  obtain ⟨m, hm, rfl⟩ := List.mem_map.mp hx
  exact PoolMarket.lock_nonneg (hpool m hm)

end CrossPool

/-! ## Admissions keep the cache -/

/-- A reservation that succeeds adds the margin of the wider exposure and the cost. -/
theorem reserveOnSnapshot_lock {snapshot snapshot' : CrossPoolSnapshot ℚ} {m : PoolMarket ℚ}
    {isBuy : Bool} {px qty : ℚ}
    (h : reserveOnSnapshot snapshot m isBuy px qty one = .ok snapshot') :
    snapshot'.orderLockRequirement = snapshot.orderLockRequirement +
      m.market.initialMarginRatio * m.markPrice *
        floorZero ((m.buildMarketLockState.add isBuy qty).absWorst -
          m.buildMarketLockState.absWorst) + m.orderCost isBuy px qty := by
  rw [reserveOnSnapshot] at h
  split at h
  · cases h
  simp only at h
  split at h
  · cases h
  · cases h
    rw [← m.orderCost_eq isBuy px qty, ← add_assoc]
    rfl

namespace TrackedPool

variable {t : TrackedPool ℚ} {p : Placement ℚ} {t' : TrackedPool ℚ}

theorem place_cases (h : t.place p = .ok t') :
    ∃ m snapshot, t.pool.markets[p.marketIndex]? = some m ∧
      (p.isMarketOrder → m.marketOrder p.isBuy = none) ∧
      reserveOnSnapshot t.getOrBuildCrossPoolSnapshot m p.isBuy p.order.orderInfo.price
        p.order.orderInfo.quantity one = .ok snapshot ∧
      (t' = ⟨t.pool.setMarket p.marketIndex (m.place p), some snapshot⟩ ∨
        t' = { t with cached := none }) := by
  rw [place] at h
  split at h
  · cases h
  rename_i m hm
  split at h
  · cases h
  rename_i hfirst
  split at h
  · cases h
  rename_i snapshot hreserve
  refine ⟨m, snapshot, hm, ?_, hreserve, ?_⟩
  · intro hmarket
    rw [hmarket, Bool.true_and, Bool.or_eq_true, not_or, Option.not_isSome_iff_eq_none,
      Option.not_isSome_iff_eq_none] at hfirst
    cases p.isBuy
    · exact hfirst.2
    · exact hfirst.1
  · split at h
    · exact Or.inl (Except.ok.inj h).symm
    · exact Or.inr (Except.ok.inj h).symm

/-- The pool is well formed, and what is tracked is what a rebuild gives. -/
structure Exact (t : TrackedPool ℚ) : Prop where
  plain : t.pool.Plain
  tracked : t.getOrBuildCrossPoolSnapshot.orderLockRequirement =
    t.pool.snapshot.orderLockRequirement

/-- The clamp of the reservation does not act on an order. -/
def ClampsInert (t : TrackedPool ℚ) (p : Placement ℚ) : Prop :=
  ∀ m, t.pool.markets[p.marketIndex]? = some m →
    0 ≤ (m.buildMarketLockState.add p.isBuy p.order.orderInfo.quantity).absWorst -
      m.buildMarketLockState.absWorst

theorem Exact.clampsInert (ht : t.Exact) (p : Placement ℚ) : t.ClampsInert p := by
  intro m hm
  have hmarket := (ht.plain m (List.mem_of_getElem? hm)).toWellFormed
  exact sub_nonneg.mpr (MarketLockState.absWorst_le_add
    (PoolMarket.openQuantity_nonneg hmarket true) (PoolMarket.openQuantity_nonneg hmarket false)
    p.isBuy p.quantity_pos.le)

/-- **ONE ADMISSION** keeps the tracked requirement exact: it adds to the cache what the
    order adds to the sum. -/
theorem Exact.place (ht : t.Exact) (h : t.place p = .ok t') : t'.Exact := by
  obtain ⟨m, snapshot, hm, hfirst, hreserve, rfl | rfl⟩ := place_cases h
  · have hmarket := ht.plain m (List.mem_of_getElem? hm)
    refine ⟨CrossPool.setMarket_plain ht.plain _
      (PoolMarket.place_plain hmarket p), ?_⟩
    show snapshot.orderLockRequirement = _
    rw [reserveOnSnapshot_lock hreserve, floorZero_of_nonneg (ht.clampsInert p m hm),
      ht.tracked, CrossPool.setMarket_orderLockRequirement hm,
      (PoolMarket.differsBy_place p hfirst).lock_eq]
    ring
  · exact ⟨ht.plain, rfl⟩

theorem exact_run {pool : CrossPool ℚ} (hpool : pool.Plain)
    (placements : List (Placement ℚ)) :
    (Transition.run place ⟨pool, none⟩ placements).Exact :=
  Transition.run_invariant (fun _ _ _ ht h => ht.place h) placements ⟨hpool, rfl⟩

end TrackedPool

/-! ## Prunes keep the last look -/

namespace MatchingStage

/-- The markets of the stage match: parameters are those of the store, and the lock state
    of the stage is that of the orders left. -/
structure Matches (s : MatchingStage ℚ) (index : ℕ) (m r : PoolMarket ℚ) : Prop where
  market : m.market = r.market
  markPrice : m.markPrice = r.markPrice
  lockState : s.lastLook.marketLockState index m = r.buildMarketLockState

/-- The last look is exact for the orders that are left. -/
structure Exact (s : MatchingStage ℚ) : Prop where
  plain : s.remaining.Plain
  tracked : s.lastLook.orderLockRequirement = s.remaining.snapshot.orderLockRequirement
  matching : ∀ index m r, s.stored.markets[index]? = some m →
    s.remaining.markets[index]? = some r → s.Matches index m r

/-- None of the clamps acts on a prune: the quantity of the side, the margin of the
    exposure and the requirement itself stay non-negative. -/
def ClampsInert (s : MatchingStage ℚ) (p : Prune) : Prop :=
  ∀ m r px qty, s.stored.markets[p.marketIndex]? = some m →
    s.remaining.markets[p.marketIndex]? = some r →
    r.remainingOrder p.isBuy p.slot = some (px, qty) →
      0 ≤ (s.lastLook.marketLockState p.marketIndex m).sideQty p.isBuy - qty ∧
      0 ≤ (s.lastLook.marketLockState p.marketIndex m).absWorst -
        ((s.lastLook.marketLockState p.marketIndex m).remove p.isBuy qty).absWorst ∧
      0 ≤ s.lastLook.lockWithout m (s.lastLook.marketLockState p.marketIndex m)
        ((s.lastLook.marketLockState p.marketIndex m).remove p.isBuy qty) p.isBuy qty px
        (worstCaseFeeRate m.market one)

theorem prune_cases (s : MatchingStage ℚ) (p : Prune) :
    s.prune p = s ∨ ∃ m r px qty, s.stored.markets[p.marketIndex]? = some m ∧
      s.remaining.markets[p.marketIndex]? = some r ∧
      r.remainingOrder p.isBuy p.slot = some (px, qty) ∧
      s.prune p = ⟨s.stored,
        s.lastLook.decrementLastLookOLROnPool p.marketIndex m p.isBuy qty px
          (worstCaseFeeRate m.market one),
        s.remaining.setMarket p.marketIndex (r.removeOrder p.isBuy p.slot)⟩ := by
  rw [prune]
  split
  · rename_i m r hm hr
    split
    · exact Or.inl rfl
    · rename_i px qty horder
      exact Or.inr ⟨m, r, px, qty, hm, hr, horder, rfl⟩
  · exact Or.inl rfl

section Prune

variable {s : MatchingStage ℚ} {p : Prune} {m r : PoolMarket ℚ} {px qty : ℚ}

theorem Exact.removed (hs : s.Exact) (hm : s.stored.markets[p.marketIndex]? = some m)
    (hr : s.remaining.markets[p.marketIndex]? = some r)
    (horder : r.remainingOrder p.isBuy p.slot = some (px, qty)) :
    qty ≤ r.buildMarketLockState.sideQty p.isBuy ∧
      r.buildMarketLockState.remove p.isBuy qty =
        (r.removeOrder p.isBuy p.slot).buildMarketLockState ∧
      (r.removeOrder p.isBuy p.slot).buildMarketLockState.absWorst ≤
        r.buildMarketLockState.absWorst ∧
      s.lastLook.lockWithout m r.buildMarketLockState
        (r.removeOrder p.isBuy p.slot).buildMarketLockState p.isBuy qty px
          (worstCaseFeeRate m.market one) =
        (s.remaining.setMarket p.marketIndex
          (r.removeOrder p.isBuy p.slot)).snapshot.orderLockRequirement := by
  have hmatch := hs.matching _ m r hm hr
  have hremoves := PoolMarket.removeOrder_removes
    (hs.plain r (List.mem_of_getElem? hr)) horder
  set r' := r.removeOrder p.isBuy p.slot
  have hlockState := hremoves.differsBy.lockState
  have hqty : qty ≤ r.buildMarketLockState.sideQty p.isBuy := by
    have hleft := PoolMarket.openQuantity_nonneg hremoves.plain.toWellFormed p.isBuy
    rw [← PoolMarket.sideQty_buildMarketLockState, hlockState, MarketLockState.add_sideQty] at hleft
    linarith
  have hback : r'.buildMarketLockState.add p.isBuy qty = r.buildMarketLockState := by
    rw [hlockState]
    cases p.isBuy <;> simp [MarketLockState.add]
  have hworst : r'.buildMarketLockState.absWorst ≤ r.buildMarketLockState.absWorst := by
    rw [← hback]
    exact MarketLockState.absWorst_le_add
      (PoolMarket.openQuantity_nonneg hremoves.plain.toWellFormed true)
      (PoolMarket.openQuantity_nonneg hremoves.plain.toWellFormed false) p.isBuy
      hremoves.quantity_nonneg
  refine ⟨hqty, by rw [hlockState, MarketLockState.remove_eq_add_neg hqty], hworst, ?_⟩
  rw [CrossPool.setMarket_orderLockRequirement hr, hremoves.differsBy.lock_eq, ← hlockState,
    ← r.orderCost_eq p.isBuy px qty]
  simp only [LastLookPool.lockWithout, floorZero_of_nonneg (sub_nonneg.mpr hworst), hs.tracked,
    hmatch.market, hmatch.markPrice, mul_rat]
  ring

/-- **NO CLAMP ACTS** on a prune. -/
theorem Exact.clampsInert (hs : s.Exact) (p : Prune) : s.ClampsInert p := by
  intro m r px qty hm hr horder
  obtain ⟨hqty, hremove, hworst, hlock⟩ := hs.removed hm hr horder
  rw [(hs.matching _ m r hm hr).lockState, hremove, hlock]
  refine ⟨sub_nonneg.mpr hqty, sub_nonneg.mpr hworst, ?_⟩
  exact CrossPool.orderLockRequirement_nonneg (CrossPool.setMarket_plain hs.plain _
    (PoolMarket.removeOrder_removes (hs.plain r (List.mem_of_getElem? hr))
      horder).plain)

/-- **ONE PRUNE** keeps the last look exact. -/
theorem Exact.prune (hs : s.Exact) (p : Prune) : (s.prune p).Exact := by
  obtain heq | ⟨m, r, px, qty, hm, hr, horder, heq⟩ := prune_cases s p
  · rwa [heq]
  · obtain ⟨-, hremove, -, hlock⟩ := hs.removed hm hr horder
    have hremoves := PoolMarket.removeOrder_removes
      (hs.plain r (List.mem_of_getElem? hr)) horder
    have hwell := CrossPool.setMarket_plain hs.plain p.marketIndex hremoves.plain
    have hmatch := hs.matching _ m r hm hr
    rw [heq]
    refine ⟨hwell, ?_, ?_⟩
    · show floorZero (s.lastLook.lockWithout m (s.lastLook.marketLockState p.marketIndex m)
        ((s.lastLook.marketLockState p.marketIndex m).remove p.isBuy qty) p.isBuy qty px
        (worstCaseFeeRate m.market one)) = _
      rw [hmatch.lockState, hremove, hlock,
        floorZero_of_nonneg (CrossPool.orderLockRequirement_nonneg hwell)]
    · intro index m₁ r₁ hm₁ hr₁
      change (s.remaining.markets.set p.marketIndex _)[index]? = some r₁ at hr₁
      by_cases hindex : p.marketIndex = index
      · subst hindex
        obtain rfl : m = m₁ := Option.some.inj (hm.symm.trans hm₁)
        rw [List.getElem?_set_self (List.getElem?_eq_some_iff.mp hr).1, Option.some.injEq] at hr₁
        subst hr₁
        refine ⟨hmatch.market.trans hremoves.differsBy.market.symm,
          hmatch.markPrice.trans hremoves.differsBy.markPrice.symm, ?_⟩
        show ((Function.update s.lastLook.marketLockStateByID p.marketIndex
          (some ((s.lastLook.marketLockState p.marketIndex m).remove p.isBuy qty)))
            p.marketIndex).getD _ = _
        rw [Function.update_self, Option.getD_some, hmatch.lockState, hremove]
      · rw [List.getElem?_set_ne hindex] at hr₁
        have hother := hs.matching index m₁ r₁ hm₁ hr₁
        refine ⟨hother.market, hother.markPrice, ?_⟩
        show ((Function.update s.lastLook.marketLockStateByID p.marketIndex _) index).getD _ = _
        rw [Function.update_of_ne (Ne.symm hindex)]
        exact hother.lockState

end Prune

theorem exact_start {pool : CrossPool ℚ} (hpool : pool.Plain) : (start pool).Exact := by
  refine ⟨hpool, rfl, fun index m r hm hr => ?_⟩
  obtain rfl : m = r := Option.some.inj (hm.symm.trans hr)
  exact ⟨rfl, rfl, rfl⟩

theorem exact_foldl {s : MatchingStage ℚ} (hs : s.Exact) (prunes : List Prune) :
    (prunes.foldl prune s).Exact := by
  induction prunes generalizing s with
  | nil => exact hs
  | cons p prunes ih => exact ih (hs.prune p)

end MatchingStage

/-! ## The tracked requirement is the rebuilt one -/

/-- **THE TRACKED ORDER LOCK IS THE REBUILT ONE**: after any admissions the cached
    requirement, and after any prunes in a matching stage on the pool they lead to the
    last-look requirement, are those of a snapshot built from the positions and the orders
    that are left; and no clamp acts on the next order. -/
theorem order_lock_eq_rebuild (pool : CrossPool ℚ) (hpool : pool.Plain)
    (placements : List (Placement ℚ)) (prunes : List Prune) :
    ((Transition.run TrackedPool.place ⟨pool, none⟩
        placements).getOrBuildCrossPoolSnapshot.orderLockRequirement =
      (Transition.run TrackedPool.place ⟨pool, none⟩ placements).pool.snapshot.orderLockRequirement ∧
      ∀ p, (Transition.run TrackedPool.place ⟨pool, none⟩ placements).ClampsInert p) ∧
    ((prunes.foldl MatchingStage.prune (.start
        (Transition.run TrackedPool.place ⟨pool, none⟩ placements).pool)).lastLook.orderLockRequirement =
      (prunes.foldl MatchingStage.prune (.start
        (Transition.run TrackedPool.place ⟨pool, none⟩
          placements).pool)).remaining.snapshot.orderLockRequirement ∧
      ∀ p, (prunes.foldl MatchingStage.prune (.start
        (Transition.run TrackedPool.place ⟨pool, none⟩ placements).pool)).ClampsInert p) := by
  have hadmitted := TrackedPool.exact_run hpool placements
  have hpruned := MatchingStage.exact_foldl (MatchingStage.exact_start hadmitted.plain) prunes
  exact ⟨⟨hadmitted.tracked, hadmitted.clampsInert⟩, hpruned.tracked, hpruned.clampsInert⟩

/-- A market sale of a half at 100. -/
def sampleSale : Placement ℚ where
  marketIndex := 0
  order :=
    { orderInfo := { subaccountID := 1, feeRecipient := 0, price := 100, quantity := 1 / 2
                     cid := "" }
      orderType := .sell, margin := 5 }
  orderHash := 2
  isMarketOrder := true
  isPlaced := true
  price_nonneg := by decide +kernel
  quantity_pos := by decide +kernel
  vanilla := by decide +kernel
  notAtomic := rfl

theorem samplePool_plain : samplePool.Plain := fun m hm =>
  { samplePool_wellFormed.markets m hm with
    notAtomic := by rw [List.mem_singleton.mp hm]; exact nofun }

/-- The sale adds its fee to what the resting buy locks; when the buy is pruned, the sale
    opens an exposure of its own. -/
theorem order_lock_eq_rebuild_sample :
    ((Transition.run TrackedPool.place ⟨samplePool, none⟩
        [sampleSale]).getOrBuildCrossPoolSnapshot.orderLockRequirement = 2452 / 100 ∧
      (Transition.run TrackedPool.place ⟨samplePool, none⟩
        [sampleSale]).pool.snapshot.orderLockRequirement = 2452 / 100) ∧
    (([⟨0, true, .limit 0⟩].foldl MatchingStage.prune (.start
        (Transition.run TrackedPool.place ⟨samplePool, none⟩
          [sampleSale]).pool)).lastLook.orderLockRequirement = 11 / 2 ∧
      ([⟨0, true, .limit 0⟩].foldl MatchingStage.prune (.start
        (Transition.run TrackedPool.place ⟨samplePool, none⟩
          [sampleSale]).pool)).remaining.snapshot.orderLockRequirement = 11 / 2) := by
  obtain ⟨⟨hadmitted, -⟩, hpruned, -⟩ := order_lock_eq_rebuild samplePool samplePool_plain
    [sampleSale] [⟨0, true, .limit 0⟩]
  rw [← hadmitted, ← hpruned]
  have htracked : (Transition.run TrackedPool.place ⟨samplePool, none⟩
      [sampleSale]).getOrBuildCrossPoolSnapshot.orderLockRequirement = 2452 / 100 := by
    decide +kernel
  have hlastLook : ([⟨0, true, .limit 0⟩].foldl MatchingStage.prune (.start
      (Transition.run TrackedPool.place ⟨samplePool, none⟩
        [sampleSale]).pool)).lastLook.orderLockRequirement = 11 / 2 := by
    decide +kernel
  exact ⟨⟨htracked, htracked⟩, hlastLook, hlastLook⟩

end ExchangeCrossAdmission
