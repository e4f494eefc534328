import InjectiveCore.ByteKeyProofs
import InjectiveCore.PriorityCancelProofs
import InjectiveCore.TransitionProofs
import InjectiveCore.ExchangeDerivativeHoldProofs

/-!
# Subaccount orders — reduce-only conflicts, resolved over an ordered store

The exchange keeps an index of the limit orders a subaccount has in one market and one
direction. The key of an order is its price, written in decimal, followed by its hash,
so that going through the keys is meant to go through the prices.

A new order against a position is checked with two passes over this index. The first
collects the orders priced equal to or better than the new one. The second goes on
behind the last of these up to the worst reduce-only order. From what they find a
reduce-only order is cut to what the position still allows, and the reduce-only orders
that no longer fit are cancelled from the worst price on.
-/

namespace ExchangeSubaccountOrders

open DecArith ExchangePosition ExchangeFees ExchangeDerivativeFill ExchangeDerivativeHold

/-! ## The index -/

/-- `SubaccountOrder`. -/
structure SubaccountOrder where
  price : LegacyDec
  quantity : LegacyDec
  isReduceOnly : Bool
  deriving DecidableEq, Repr

/-- `SubaccountOrderData`. -/
structure SubaccountOrderData where
  order : SubaccountOrder
  orderHash : Hash
  deriving DecidableEq, Repr

/-- The bytes of a number in decimal, padded with the digit zero. -/
def decimalBytes (width n : ℕ) : List ℕ := (ByteKey.bigEndian 10 width n).map (48 + ·)

/-- `GetPaddedPrice`: 32 digits, a point, 18 digits. A longer natural part is not
    cut. -/
def getPaddedPrice (price : LegacyDec) : List ℕ :=
  decimalBytes 32 (price.raw.toNat / LegacyDec.precision) ++
    46 :: decimalBytes 18 (price.raw.toNat % LegacyDec.precision)

/-- `GetSubaccountOrderIterationKey`. -/
def getSubaccountOrderIterationKey (price : LegacyDec) (orderHash : Hash) : List ℕ :=
  getPaddedPrice price ++ ByteKey.bigEndian 256 32 orderHash.toNat

/-- The key an order is stored under. -/
def SubaccountOrderData.key (o : SubaccountOrderData) : List ℕ :=
  getSubaccountOrderIterationKey o.order.price o.orderHash

/-- `SubtractBitFromPrefix`. -/
def subtractBitFromPrefix (key : List ℕ) : Option (List ℕ) := ByteKey.predecessor key

/-- `AddBitToPrefix`. -/
def addBitToPrefix (key : List ℕ) : Option (List ℕ) := ByteKey.successor key

/-- The range of the iterator: with a start key, the keys below the one before it
    (descending), or from the one after it on (ascending). The upper end of a range
    does not belong to it, the lower one does. -/
def inRange (descending : Bool) (startFromInfix : Option (List ℕ)) (key : List ℕ) :
    Bool :=
  if descending then
    match startFromInfix.bind subtractBitFromPrefix with
    | none => true
    | some endInfix => decide (key < endInfix)
  else
    match startFromInfix.bind addBitToPrefix with
    | none => true
    | some startInfix => decide (startInfix ≤ key)

/-- `IterateSubaccountOrdersStartingFromOrder`: the orders in the sequence in which they
    are processed. -/
def iterateSubaccountOrdersStartingFromOrder
    (isBuy isStartingIterationFromBestPrice : Bool) (startFromInfix : Option (List ℕ))
    (orders : List SubaccountOrderData) : List SubaccountOrderData :=
  let descending := isBuy == isStartingIterationFromBestPrice
  let found := orders.filter (fun o => inRange descending startFromInfix o.key)
  if descending then found.reverse else found

/-- `SetSubaccountOrder`. The hash of an order is computed from a nonce that only grows,
    so its key is new. -/
def setSubaccountOrder (orders : List SubaccountOrderData) (o : SubaccountOrderData) :
    List SubaccountOrderData :=
  orders.orderedInsert (fun a b => a.key ≤ b.key) o

/-- `SubaccountOrderbookMetadata`, its part on limit orders. -/
structure SubaccountOrderbookMetadata where
  vanillaLimitOrderCount : UInt32
  reduceOnlyLimitOrderCount : UInt32
  aggregateReduceOnlyQuantity : LegacyDec
  aggregateVanillaQuantity : LegacyDec
  deriving DecidableEq, Repr

/-- The limit orders of a subaccount in one market and direction, by key, with their
    metadata. -/
structure OrderSide where
  orders : List SubaccountOrderData
  metadata : SubaccountOrderbookMetadata
  deriving DecidableEq, Repr

/-- `SetNewDerivativeLimitOrderWithMetadata`, and the transient one alike. -/
def OrderSide.setNewDerivativeLimitOrderWithMetadata (s : OrderSide)
    (o : DerivativeLimitOrder LegacyDec) : OrderSide :=
  { orders := setSubaccountOrder s.orders
      { order := { price := o.orderInfo.price, quantity := o.fillable,
                   isReduceOnly := o.isReduceOnly }
        orderHash := o.orderHash }
    metadata :=
      if o.isReduceOnly then
        { s.metadata with
          reduceOnlyLimitOrderCount := s.metadata.reduceOnlyLimitOrderCount + 1
          aggregateReduceOnlyQuantity :=
            s.metadata.aggregateReduceOnlyQuantity + o.fillable }
      else
        { s.metadata with
          vanillaLimitOrderCount := s.metadata.vanillaLimitOrderCount + 1
          aggregateVanillaQuantity := s.metadata.aggregateVanillaQuantity + o.fillable } }

/-! ## The two passes -/

/-- A price that is strictly worse than `limit` for an order of this direction. -/
def isWorse (isBuy : Bool) (price limit : LegacyDec) : Bool :=
  isBuy && decide (price < limit) || !isBuy && decide (limit < price)

/-- A price that is strictly better than `limit` for an order of this direction. -/
def isBetter (isBuy : Bool) (price limit : LegacyDec) : Bool :=
  isBuy && decide (limit < price) || !isBuy && decide (price < limit)

/-- `SubaccountOrderResults`. -/
structure SubaccountOrderResults where
  reduceOnlyOrders : List SubaccountOrderData
  vanillaOrders : List SubaccountOrderData
  cumulativeEOBVanillaQuantity : LegacyDec
  cumulativeEOBReduceOnlyQuantity : LegacyDec
  cumulativeBetterReduceOnlyQuantity : LegacyDec
  lastFoundOrder : Option (LegacyDec × Hash)
  deriving DecidableEq, Repr

/-- `NewSubaccountOrderResults`. -/
def newSubaccountOrderResults : SubaccountOrderResults :=
  { reduceOnlyOrders := [], vanillaOrders := [], cumulativeEOBVanillaQuantity := 0,
    cumulativeEOBReduceOnlyQuantity := 0, cumulativeBetterReduceOnlyQuantity := 0,
    lastFoundOrder := none }

/-- `AddSubaccountOrder`. -/
def SubaccountOrderResults.addSubaccountOrder (r : SubaccountOrderResults)
    (d : SubaccountOrderData) : SubaccountOrderResults :=
  if d.order.isReduceOnly then
    { r with
      reduceOnlyOrders := r.reduceOnlyOrders ++ [d]
      cumulativeEOBReduceOnlyQuantity :=
        r.cumulativeEOBReduceOnlyQuantity + d.order.quantity }
  else
    { r with
      vanillaOrders := r.vanillaOrders ++ [d]
      cumulativeEOBVanillaQuantity :=
        r.cumulativeEOBVanillaQuantity + d.order.quantity }

/-- What the first pass does with an order it does not stop at. -/
def SubaccountOrderResults.process (price : LegacyDec) (r : SubaccountOrderResults)
    (d : SubaccountOrderData) : SubaccountOrderResults :=
  let r := { r with lastFoundOrder := some (d.order.price, d.orderHash) }
  let r := r.addSubaccountOrder d
  if price ≠ d.order.price ∧ d.order.isReduceOnly then
    { r with
      cumulativeBetterReduceOnlyQuantity :=
        r.cumulativeBetterReduceOnlyQuantity + d.order.quantity }
  else r

/-- `GetEqualOrBetterPricedSubaccountOrderResults`. -/
def getEqualOrBetterPricedSubaccountOrderResults (orders : List SubaccountOrderData)
    (isBuy : Bool) (price : LegacyDec) : SubaccountOrderResults :=
  PriorityCancel.scanUntil (fun _ d => isWorse isBuy d.order.price price)
    (SubaccountOrderResults.process price) newSubaccountOrderResults
    (iterateSubaccountOrdersStartingFromOrder isBuy true none orders)

/-- What the second pass has found so far. -/
structure WorstROScan where
  foundROQuantity : LegacyDec
  worstROPrice : LegacyDec
  totalQuantityFromWorstRO : LegacyDec
  worstROandBetterOrders : List SubaccountOrderData
  deriving DecidableEq, Repr

/-- All reduce-only quantity is found, and the order is not priced as the worst
    reduce-only order found by this pass. -/
def WorstROScan.stop (totalROQuantity : LegacyDec) (s : WorstROScan)
    (d : SubaccountOrderData) : Bool :=
  decide (totalROQuantity ≤ s.foundROQuantity) && decide (d.order.price ≠ s.worstROPrice)

/-- What the second pass does with an order it does not stop at. -/
def WorstROScan.process (s : WorstROScan) (d : SubaccountOrderData) : WorstROScan :=
  { foundROQuantity :=
      if d.order.isReduceOnly then s.foundROQuantity + d.order.quantity
      else s.foundROQuantity
    worstROPrice := if d.order.isReduceOnly then d.order.price else s.worstROPrice
    totalQuantityFromWorstRO := s.totalQuantityFromWorstRO + d.order.quantity
    worstROandBetterOrders := s.worstROandBetterOrders ++ [d] }

/-- The second pass starts from what the first has found. -/
def WorstROScan.start (eobResults : SubaccountOrderResults) : WorstROScan :=
  { foundROQuantity := eobResults.cumulativeEOBReduceOnlyQuantity
    worstROPrice := 0
    totalQuantityFromWorstRO := eobResults.cumulativeEOBReduceOnlyQuantity +
      eobResults.cumulativeEOBVanillaQuantity
    worstROandBetterOrders := eobResults.vanillaOrders ++ eobResults.reduceOnlyOrders }

/-- The comparison of the sort: worst price first, and reduce-only orders first among
    equal prices. Two reduce-only orders of one price are each less than the other. -/
def less (isBuy : Bool) (a b : SubaccountOrderData) : Bool :=
  if a.order.price = b.order.price then a.order.isReduceOnly
  else if isBuy then decide (a.order.price < b.order.price)
  else decide (b.order.price < a.order.price)

/-- `sort.SliceStable` under `less`. As `less` is no strict order, the sequence of
    reduce-only orders with one price is left open. -/
structure SliceStable where
  sort : Bool → List SubaccountOrderData → List SubaccountOrderData
  perm : ∀ isBuy l, (sort isBuy l).Perm l
  ordered : ∀ isBuy l, (sort isBuy l).Pairwise
    (fun a b => less isBuy a b = true ∨ less isBuy b a = false)

/-- `GetWorstROAndAllBetterPricedSubaccountOrders`. -/
def getWorstROAndAllBetterPricedSubaccountOrders (S : SliceStable)
    (orders : List SubaccountOrderData) (totalROQuantity : LegacyDec) (isBuy : Bool)
    (eobResults : SubaccountOrderResults) : List SubaccountOrderData × LegacyDec :=
  let startOrderKey := eobResults.lastFoundOrder.map
    (fun last => getSubaccountOrderIterationKey last.1 last.2)
  let scan := PriorityCancel.scanUntil (WorstROScan.stop totalROQuantity)
    WorstROScan.process (WorstROScan.start eobResults)
    (iterateSubaccountOrdersStartingFromOrder isBuy true startOrderKey orders)
  (S.sort isBuy scan.worstROandBetterOrders, scan.totalQuantityFromWorstRO)

/-! ## Resizing and cancelling -/

/-- The ways a new order is refused. -/
inductive OrderError where
  | rejected
  | noMarginLocked
  | invalidPositionToReduce
  | positionNotFound
  | invalidReduceOnlyPositionDirection
  | emergencyPause
  | insufficientMargin
  | insufficientPositionQuantity
  | orderInvalid
  | orderDoesntExist
  deriving DecidableEq, Repr

/-- What the check of a new order reads besides the position and the index. -/
structure OrderChecks where
  /-- hash, client id, expiry, top of book, market, ticks, notional, price bounds and
      the number of orders -/
  basic : Bool
  /-- for a conditional reduce-only order: a position or some vanilla order -/
  marginLocked : Bool
  /-- `CheckValidPositionToReduce` -/
  validPositionToReduce : Bool
  /-- `CheckCrossMarginEmergencyPause` -/
  notPaused : Bool
  /-- `ReserveDerivativeOrderMargin` -/
  marginReserved : Bool
  /-- `DeleteDerivativeLimitOrderByFields` finds the order, resting or transient -/
  orderExists : LegacyDec → Hash → Bool
  /-- the sort of the standard library -/
  sliceStable : SliceStable

/-- `ResizeReduceOnlyOrder`. -/
def resizeReduceOnlyOrder (o : DerivativeOrder LegacyDec) (newQuantity : LegacyDec) :
    Except OrderError (DerivativeOrder LegacyDec) :=
  if !o.isReduceOnly then .error .orderInvalid
  else if o.orderInfo.quantity - newQuantity ≤ 0 then .ok o
  else .ok { o with orderInfo := { o.orderInfo with quantity := newQuantity } }

/-- `resizeNewReduceOnlyIfRequired`. -/
def resizeNewReduceOnlyIfRequired (order : DerivativeOrder LegacyDec)
    (positionQuantity : LegacyDec) (betterOrEqualOrders : SubaccountOrderResults) :
    Except OrderError (DerivativeOrder LegacyDec) :=
  let existingClosingQuantity := betterOrEqualOrders.cumulativeEOBReduceOnlyQuantity +
    betterOrEqualOrders.cumulativeEOBVanillaQuantity
  let reducibleQuantity := positionQuantity - existingClosingQuantity
  if ¬0 < reducibleQuantity then .error .insufficientPositionQuantity
  else
    let newResizedOrderQuantity := min order.orderInfo.quantity reducibleQuantity
    if order.orderInfo.quantity ≤ newResizedOrderQuantity then .ok order
    else resizeReduceOnlyOrder order newResizedOrderQuantity

/-- `CancelReduceOnlySubaccountOrders`: what is left of the index, and the quantity
    cancelled. -/
def cancelReduceOnlySubaccountOrders (E : OrderChecks) (orders : List SubaccountOrderData)
    (orderData : List SubaccountOrderData) :
    Except OrderError (List SubaccountOrderData × LegacyDec) :=
  orderData.foldlM (fun acc d =>
    if E.orderExists d.order.price d.orderHash then
      .ok (acc.1.filter (fun o => o.key ≠ d.key), acc.2 + d.order.quantity)
    else .error .orderDoesntExist) (orders, 0)

/-- `CancelReduceOnlyOrders`. -/
def cancelReduceOnlyOrders (E : OrderChecks) (side : OrderSide)
    (ordersToCancel : List SubaccountOrderData) : Except OrderError OrderSide :=
  if ordersToCancel = [] then .ok side
  else
    (cancelReduceOnlySubaccountOrders E side.orders ordersToCancel).map fun cancelled =>
      { orders := cancelled.1
        metadata :=
          { side.metadata with
            reduceOnlyLimitOrderCount := side.metadata.reduceOnlyLimitOrderCount -
              UInt32.ofNat ordersToCancel.length
            aggregateReduceOnlyQuantity :=
              side.metadata.aggregateReduceOnlyQuantity - cancelled.2 } }

/-- `CancelMinimumReduceOnlyOrders`; there is not always a new order. -/
def cancelMinimumReduceOnlyOrders (E : OrderChecks) (side : OrderSide)
    (isReduceOnlyDirectionBuy : Bool) (positionQuantity : LegacyDec)
    (eobResults : SubaccountOrderResults) (newOrder : Option (DerivativeOrder LegacyDec)) :
    Except OrderError OrderSide :=
  let worst := getWorstROAndAllBetterPricedSubaccountOrders E.sliceStable side.orders
    side.metadata.aggregateReduceOnlyQuantity isReduceOnlyDirectionBuy eobResults
  let positionFlippingQuantity := worst.2 - positionQuantity +
    (newOrder.map (fun o => o.orderInfo.quantity)).getD 0
  if ¬0 < positionFlippingQuantity then .ok side
  else
    -- the loop goes on to the first order with a better price than the new one
    let isBetterThanNew := fun d : SubaccountOrderData =>
      newOrder.any (fun o => isBetter o.orderType.isBuy d.order.price o.orderInfo.price)
    let checked := PriorityCancel.passed (fun d : SubaccountOrderData => d.order.quantity)
      isBetterThanNew positionFlippingQuantity 0 worst.1
    cancelReduceOnlyOrders E side (checked.filter (fun d => d.order.isReduceOnly))

/-- `cancelWorseOrdersToCancelIfRequired`. -/
def cancelWorseOrdersToCancelIfRequired (E : OrderChecks) (side : OrderSide)
    (newOrder : DerivativeOrder LegacyDec) (positionQuantity : LegacyDec)
    (eobResults : SubaccountOrderResults) : Except OrderError OrderSide :=
  let maxRoQuantityToCancel := side.metadata.aggregateReduceOnlyQuantity -
    eobResults.cumulativeBetterReduceOnlyQuantity
  if maxRoQuantityToCancel ≤ 0 then .ok side
  else cancelMinimumReduceOnlyOrders E side newOrder.orderType.isBuy positionQuantity
    eobResults (some newOrder)

/-- `resolveReduceOnlyConflicts`: the order with its quantity, and the index without the
    cancelled orders. -/
def resolveReduceOnlyConflicts (E : OrderChecks) (order : DerivativeOrder LegacyDec)
    (side : OrderSide) (position : Option (Position LegacyDec)) :
    Except OrderError (DerivativeOrder LegacyDec × OrderSide) :=
  match position with
  | none => .ok (order, side)
  | some position =>
    if position.isLong = order.orderType.isBuy then .ok (order, side)
    else
      let cumulativeOrderSideQuantity := order.orderInfo.quantity +
        side.metadata.aggregateReduceOnlyQuantity + side.metadata.aggregateVanillaQuantity
      if ¬position.quantity < cumulativeOrderSideQuantity then .ok (order, side)
      else do
        let eobResults := getEqualOrBetterPricedSubaccountOrderResults side.orders
          order.orderType.isBuy order.orderInfo.price
        let resized ← if order.isReduceOnly then
            resizeNewReduceOnlyIfRequired order position.quantity eobResults
          else .ok order
        let side' ← cancelWorseOrdersToCancelIfRequired E side resized position.quantity
          eobResults
        .ok (resized, side')

/-- The part of `EnsureValidDerivativeOrder` that looks at the position. -/
def checkPosition (E : OrderChecks) (order : DerivativeOrder LegacyDec)
    (position : Option (Position LegacyDec)) : Except OrderError Unit :=
  if order.orderType.isConditional then
    if order.isReduceOnly && !E.marginLocked then .error .noMarginLocked else .ok ()
  else if position.any (fun p => order.orderType.isBuy != p.isLong && decide (0 < p.quantity))
      && !E.validPositionToReduce then .error .invalidPositionToReduce
  else if order.isReduceOnly then
    match position with
    | none => .error .positionNotFound
    | some p =>
      if order.orderType.isBuy = p.isLong then .error .invalidReduceOnlyPositionDirection
      else .ok ()
  else .ok ()

/-- `EnsureValidDerivativeOrder`. -/
def ensureValidDerivativeOrder (E : OrderChecks) (order : DerivativeOrder LegacyDec)
    (side : OrderSide) (position : Option (Position LegacyDec)) :
    Except OrderError (DerivativeOrder LegacyDec × OrderSide) :=
  if !E.basic then .error .rejected
  else do
    checkPosition E order position
    if !E.notPaused then .error .emergencyPause
    else if !order.isReduceOnly && !E.marginReserved then .error .insufficientMargin
    else if order.orderType.isConditional then .ok (order, side)
    else resolveReduceOnlyConflicts E order side position

end ExchangeSubaccountOrders
