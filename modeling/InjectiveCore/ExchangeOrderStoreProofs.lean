import InjectiveCore.KeyedStoreProofs
import InjectiveCore.ExchangeDerivativeBookProofs
import InjectiveCore.ExchangeSubaccountOrdersProofs

/-!
# The stores of derivative limit orders

A derivative limit order is written to several stores at once: the orders by price, an
index of them by subaccount, the orders of each subaccount, the metadata of each
subaccount and side, and the quantity of each price level. Orders that are placed during
a block rest in a transient store until the batch auction at its end, but count in the
metadata from the start and in no price level.

The stores are keyed by what the key bytes are made of; the order hash, the last
component of a price key, has a fixed length, so distinct components give distinct
bytes.

- Placing, cancelling and settling orders are translated from `keeper/derivative` and
  `keeper/base`, store by store (`setNewDerivativeLimitOrderWithMetadata`,
  `cancelRestingDerivativeLimitOrder`, `updateDerivativeLimitOrdersFromFilledDeltas`).
- Metadata is an additive group: `applyDelta_eq_add` and `contribution` say what an order
  adds to it.
-/

namespace ExchangeOrderStore

open KeyedStore ExchangeFees ExchangeDerivativeFill ExchangeDerivativeBook
  ExchangeSubaccountOrders

/-- A derivative limit order with the decimals of the chain. -/
abbrev LimitOrder := DerivativeLimitOrder LegacyDec

/-! ## Keys -/

/-- `GetLimitOrderByPriceKeyPrefix`. -/
structure PriceKey where
  marketID : Hash
  isBuy : Bool
  price : LegacyDec
  orderHash : Hash
  deriving DecidableEq, Repr

/-- `GetLimitOrderIndexKey`. -/
structure IndexKey where
  marketID : Hash
  isBuy : Bool
  subaccountID : Hash
  orderHash : Hash
  deriving DecidableEq, Repr

/-- `GetSubaccountOrderKey`. -/
structure SubaccountOrderKey where
  marketID : Hash
  subaccountID : Hash
  isBuy : Bool
  price : LegacyDec
  orderHash : Hash
  deriving DecidableEq, Repr

/-- `GetDerivativeOrderbookLevelsForPriceKey`. -/
structure LevelKey where
  marketID : Hash
  isBuy : Bool
  price : LegacyDec
  deriving DecidableEq, Repr

/-- `GetSubaccountOrderbookMetadataKey`. -/
structure MetadataKey where
  marketID : Hash
  subaccountID : Hash
  isBuy : Bool
  deriving DecidableEq, Repr

/-- The key of an order in the orders of a market. -/
def priceKey (marketID : Hash) (o : LimitOrder) : PriceKey :=
  ⟨marketID, o.orderType.isBuy, o.orderInfo.price, o.orderHash⟩

/-- The price level of an order. -/
def PriceKey.level (k : PriceKey) : LevelKey := ⟨k.marketID, k.isBuy, k.price⟩

/-- The key of an order of a subaccount in the index. -/
def PriceKey.index (k : PriceKey) (subaccountID : Hash) : IndexKey :=
  ⟨k.marketID, k.isBuy, subaccountID, k.orderHash⟩

/-- The key of an order among the orders of its subaccount. -/
def PriceKey.owned (k : PriceKey) (subaccountID : Hash) : SubaccountOrderKey :=
  ⟨k.marketID, subaccountID, k.isBuy, k.price, k.orderHash⟩

/-- The key of the metadata an order counts in. -/
def PriceKey.side (k : PriceKey) (subaccountID : Hash) : MetadataKey :=
  ⟨k.marketID, subaccountID, k.isBuy⟩

/-! ## Metadata -/

/-- `NewSubaccountOrderbookMetadata`. -/
def newSubaccountOrderbookMetadata : SubaccountOrderbookMetadata := ⟨0, 0, 0, 0⟩

/-- `ApplyDelta`: quantities are only touched when the delta has one. -/
def applyDelta (m d : SubaccountOrderbookMetadata) : SubaccountOrderbookMetadata :=
  { vanillaLimitOrderCount := m.vanillaLimitOrderCount + d.vanillaLimitOrderCount
    reduceOnlyLimitOrderCount := m.reduceOnlyLimitOrderCount + d.reduceOnlyLimitOrderCount
    aggregateReduceOnlyQuantity :=
      if d.aggregateReduceOnlyQuantity = 0 then m.aggregateReduceOnlyQuantity
      else m.aggregateReduceOnlyQuantity + d.aggregateReduceOnlyQuantity
    aggregateVanillaQuantity :=
      if d.aggregateVanillaQuantity = 0 then m.aggregateVanillaQuantity
      else m.aggregateVanillaQuantity + d.aggregateVanillaQuantity }

/-- One more order of a kind. -/
def countOrder (m : SubaccountOrderbookMetadata) (o : LimitOrder) :
    SubaccountOrderbookMetadata :=
  if o.isReduceOnly then
    { m with
      reduceOnlyLimitOrderCount := m.reduceOnlyLimitOrderCount + 1
      aggregateReduceOnlyQuantity := m.aggregateReduceOnlyQuantity + o.fillable }
  else
    { m with
      vanillaLimitOrderCount := m.vanillaLimitOrderCount + 1
      aggregateVanillaQuantity := m.aggregateVanillaQuantity + o.fillable }

/-- One order of a kind less. -/
def uncountOrder (m : SubaccountOrderbookMetadata) (o : LimitOrder) :
    SubaccountOrderbookMetadata :=
  if o.isReduceOnly then
    { m with
      reduceOnlyLimitOrderCount := m.reduceOnlyLimitOrderCount - 1
      aggregateReduceOnlyQuantity := m.aggregateReduceOnlyQuantity - o.fillable }
  else
    { m with
      vanillaLimitOrderCount := m.vanillaLimitOrderCount - 1
      aggregateVanillaQuantity := m.aggregateVanillaQuantity - o.fillable }

/-! ## The stores -/

/-- The stores of derivative limit orders, permanent and transient. -/
structure Stores where
  orders : Store PriceKey LimitOrder
  ordersIndex : Store IndexKey PriceKey
  transientOrders : Store PriceKey LimitOrder
  subaccountOrders : Store SubaccountOrderKey SubaccountOrder
  metadata : Store MetadataKey SubaccountOrderbookMetadata
  priceLevels : Store LevelKey LegacyDec
  transientPriceLevels : Store LevelKey LegacyDec

namespace Stores

/-- Nothing stored. -/
def empty : Stores := ⟨∅, ∅, ∅, ∅, ∅, ∅, ∅⟩

/-- The end of a block: the transient stores are gone. -/
def commit (s : Stores) : Stores := { s with transientOrders := ∅, transientPriceLevels := ∅ }

/-- `GetOrderbookPriceLevelQuantity`: what the block has written comes first. -/
def getOrderbookPriceLevelQuantity (s : Stores) (key : LevelKey) : LegacyDec :=
  match s.transientPriceLevels.lookup key with
  | some quantity => quantity
  | none => (s.priceLevels.lookup key).getD 0

/-- What reading `UnsignedDecToUnsignedDecBytes` back gives: the sign is lost. -/
def unsignedDec (quantity : LegacyDec) : LegacyDec := ⟨|quantity.raw|⟩

/-- `SetOrderbookPriceLevelQuantity`. -/
def setOrderbookPriceLevelQuantity (s : Stores) (key : LevelKey) (quantity : LegacyDec) :
    Stores :=
  { s with
    priceLevels := put key (if quantity = 0 then none else some (unsignedDec quantity))
      s.priceLevels
    transientPriceLevels := put key (some (unsignedDec quantity)) s.transientPriceLevels }

/-- `IncrementOrderbookPriceLevelQuantity`. -/
def incrementOrderbookPriceLevelQuantity (s : Stores) (key : LevelKey)
    (quantity : LegacyDec) : Stores :=
  if quantity = 0 then s
  else s.setOrderbookPriceLevelQuantity key (s.getOrderbookPriceLevelQuantity key + quantity)

/-- `DecrementOrderbookPriceLevelQuantity`. -/
def decrementOrderbookPriceLevelQuantity (s : Stores) (key : LevelKey)
    (quantity : LegacyDec) : Stores :=
  if quantity = 0 then s
  else s.setOrderbookPriceLevelQuantity key (s.getOrderbookPriceLevelQuantity key - quantity)

/-- `GetSubaccountOrderbookMetadata`. -/
def getSubaccountOrderbookMetadata (s : Stores) (key : MetadataKey) :
    SubaccountOrderbookMetadata :=
  (s.metadata.lookup key).getD newSubaccountOrderbookMetadata

/-- `SetSubaccountOrderbookMetadata`. -/
def setSubaccountOrderbookMetadata (s : Stores) (key : MetadataKey)
    (metadata : SubaccountOrderbookMetadata) : Stores :=
  { s with metadata := put key (some metadata) s.metadata }

/-- `NewSubaccountOrder`. -/
def newSubaccountOrder (o : LimitOrder) : SubaccountOrder :=
  { price := o.orderInfo.price, quantity := o.fillable, isReduceOnly := o.isReduceOnly }

/-- `SetSubaccountOrder`. -/
def setSubaccountOrder (s : Stores) (key : SubaccountOrderKey)
    (subaccountOrder : SubaccountOrder) : Stores :=
  { s with subaccountOrders := put key (some subaccountOrder) s.subaccountOrders }

/-- `DeleteSubaccountOrder`. -/
def deleteSubaccountOrder (s : Stores) (marketID : Hash) (o : LimitOrder) : Stores :=
  { s with
    subaccountOrders :=
      put ((priceKey marketID o).owned o.orderInfo.subaccountID) none s.subaccountOrders }

/-- `BasicSetNewDerivativeLimitOrder`. -/
def basicSetNewDerivativeLimitOrder (s : Stores) (o : LimitOrder) (marketID : Hash) :
    Stores :=
  { s with orders := put (priceKey marketID o) (some o) s.orders }

/-- `SetNewDerivativeLimitOrder`. -/
def setNewDerivativeLimitOrder (s : Stores) (o : LimitOrder) (marketID : Hash) : Stores :=
  let s := s.basicSetNewDerivativeLimitOrder o marketID
  { s with
    ordersIndex := put ((priceKey marketID o).index o.orderInfo.subaccountID)
      (some (priceKey marketID o)) s.ordersIndex }

/-- `BasicDeleteDerivativeLimitOrder`. -/
def basicDeleteDerivativeLimitOrder (s : Stores) (marketID : Hash) (o : LimitOrder) :
    Stores :=
  { s with
    orders := put (priceKey marketID o) none s.orders
    ordersIndex :=
      put ((priceKey marketID o).index o.orderInfo.subaccountID) none s.ordersIndex }

/-- `DeleteDerivativeLimitOrder`. -/
def deleteDerivativeLimitOrder (s : Stores) (marketID : Hash) (o : LimitOrder) : Stores :=
  let s := s.basicDeleteDerivativeLimitOrder marketID o
  let s := s.deleteSubaccountOrder marketID o
  s.decrementOrderbookPriceLevelQuantity (priceKey marketID o).level o.fillable

/-- `DeleteTransientDerivativeLimitOrder`. -/
def deleteTransientDerivativeLimitOrder (s : Stores) (marketID : Hash) (o : LimitOrder) :
    Stores :=
  { s with
    transientOrders := put (priceKey marketID o) none s.transientOrders
    subaccountOrders :=
      put ((priceKey marketID o).owned o.orderInfo.subaccountID) none s.subaccountOrders }

/-! ## Placing -/

/-- `SetNewDerivativeLimitOrderWithMetadata`. -/
def setNewDerivativeLimitOrderWithMetadata (s : Stores) (o : LimitOrder)
    (metadata : Option SubaccountOrderbookMetadata) (marketID : Hash) : Stores :=
  let key := priceKey marketID o
  let side := key.side o.orderInfo.subaccountID
  let s := s.setNewDerivativeLimitOrder o marketID
  let metadata := metadata.getD (s.getSubaccountOrderbookMetadata side)
  let s := s.setSubaccountOrderbookMetadata side (countOrder metadata o)
  let s := s.setSubaccountOrder (key.owned o.orderInfo.subaccountID) (newSubaccountOrder o)
  s.incrementOrderbookPriceLevelQuantity key.level o.fillable

/-- `SetNewTransientDerivativeLimitOrderWithMetadata`: no price level counts the order
    yet. -/
def setNewTransientDerivativeLimitOrderWithMetadata (s : Stores) (o : LimitOrder)
    (metadata : Option SubaccountOrderbookMetadata) (marketID : Hash) : Stores :=
  let key := priceKey marketID o
  let side := key.side o.orderInfo.subaccountID
  let s := { s with transientOrders := put key (some o) s.transientOrders }
  let metadata := metadata.getD (s.getSubaccountOrderbookMetadata side)
  let s := s.setSubaccountOrderbookMetadata side (countOrder metadata o)
  s.setSubaccountOrder (key.owned o.orderInfo.subaccountID) (newSubaccountOrder o)

/-! ## Cancelling -/

/-- Why a limit order is not cancelled. -/
inductive CancelError where
  | orderDoesntExist
  | positionNotFound
  | refund
  deriving DecidableEq, Repr

/-- `UpdateSubaccountOrderbookMetadataFromOrderCancel`. -/
def updateSubaccountOrderbookMetadataFromOrderCancel (s : Stores)
    (marketID subaccountID : Hash) (o : LimitOrder) : Stores :=
  let side := (priceKey marketID o).side subaccountID
  s.setSubaccountOrderbookMetadata side
    (uncountOrder (s.getSubaccountOrderbookMetadata side) o)

/-- `fetchPriceKeyFromOrdersIndexStore`: without a direction both are looked up. -/
def fetchPriceKeyFromOrdersIndexStore (s : Stores) (marketID : Hash) (isBuy : Option Bool)
    (subaccountID orderHash : Hash) : Option PriceKey :=
  match isBuy with
  | some isBuy => s.ordersIndex.lookup ⟨marketID, isBuy, subaccountID, orderHash⟩
  | none =>
    (s.ordersIndex.lookup ⟨marketID, true, subaccountID, orderHash⟩).or
      (s.ordersIndex.lookup ⟨marketID, false, subaccountID, orderHash⟩)

/-- `GetDerivativeLimitOrderBySubaccountIDAndHash`. -/
def getDerivativeLimitOrderBySubaccountIDAndHash (s : Stores) (marketID : Hash)
    (isBuy : Option Bool) (subaccountID orderHash : Hash) : Option LimitOrder :=
  (s.fetchPriceKeyFromOrdersIndexStore marketID isBuy subaccountID orderHash).bind
    s.orders.lookup

/-- `CancelRestingDerivativeLimitOrder`; `refund` says whether
    `RefundDerivativeLimitOrderCancel` fails. -/
def cancelRestingDerivativeLimitOrder (s : Stores) (refund : LimitOrder → Bool)
    (marketID subaccountID : Hash) (isBuy : Option Bool) (orderHash : Hash)
    (shouldCancelReduceOnly shouldCancelVanilla : Bool) : Except CancelError Stores :=
  match s.getDerivativeLimitOrderBySubaccountIDAndHash marketID isBuy subaccountID
      orderHash with
  | none => .error .orderDoesntExist
  | some o =>
    if !o.isReduceOnly && !shouldCancelVanilla ||
        o.isReduceOnly && !shouldCancelReduceOnly then .ok s
    else if !o.isReduceOnly && refund o then .error .refund
    else
      .ok ((s.deleteDerivativeLimitOrder marketID
        o).updateSubaccountOrderbookMetadataFromOrderCancel marketID subaccountID o)

/-- `CancelTransientDerivativeLimitOrder`; a reduce-only order is only cancelled while
    its position exists. -/
def cancelTransientDerivativeLimitOrder (s : Stores) (refund : LimitOrder → Bool)
    (hasPosition : Bool) (marketID : Hash) (o : LimitOrder) : Except CancelError Stores :=
  if !o.isReduceOnly && refund o then .error .refund
  else if o.isReduceOnly && !hasPosition then .error .positionNotFound
  else
    .ok ((s.updateSubaccountOrderbookMetadataFromOrderCancel marketID
      o.orderInfo.subaccountID o).deleteTransientDerivativeLimitOrder marketID o)

/-! ## Settling a batch -/

/-- `FillableQuantity`. -/
def fillableQuantity (d : DerivativeLimitOrderDelta LegacyDec) : LegacyDec :=
  d.order.fillable - d.cancelQuantity

/-- A smaller aggregate quantity. -/
def decrementAggregate (m : SubaccountOrderbookMetadata) (isReduceOnly : Bool)
    (quantity : LegacyDec) : SubaccountOrderbookMetadata :=
  if isReduceOnly then
    { m with aggregateReduceOnlyQuantity := m.aggregateReduceOnlyQuantity - quantity }
  else { m with aggregateVanillaQuantity := m.aggregateVanillaQuantity - quantity }

/-- One order less, whatever its quantity. -/
def decrementCount (m : SubaccountOrderbookMetadata) (isReduceOnly : Bool) :
    SubaccountOrderbookMetadata :=
  if isReduceOnly then
    { m with reduceOnlyLimitOrderCount := m.reduceOnlyLimitOrderCount - 1 }
  else { m with vanillaLimitOrderCount := m.vanillaLimitOrderCount - 1 }

/-- What a filled delta does to the metadata delta of its subaccount. -/
def updateMetadataDelta (m : SubaccountOrderbookMetadata)
    (d : DerivativeLimitOrderDelta LegacyDec) : SubaccountOrderbookMetadata :=
  let m := decrementAggregate m d.order.isReduceOnly (d.fillQuantity + d.cancelQuantity)
  if fillableQuantity d = 0 then decrementCount m d.order.isReduceOnly else m

/-- What a filled delta does to the stores of orders. An order with nothing left is
    deleted, but a transient one was never written to the permanent store. One with a
    remainder is stored, unless it is transient and cancelled with the same batch. -/
def updateOrder (s : Stores) (marketID : Hash) (isResting isPartialCancel : Bool)
    (d : DerivativeLimitOrderDelta LegacyDec) : Stores :=
  if fillableQuantity d = 0 then
    let s := if isResting then s.basicDeleteDerivativeLimitOrder marketID d.order else s
    s.deleteSubaccountOrder marketID d.order
  else
    let s :=
      if isResting then s.basicSetNewDerivativeLimitOrder d.order marketID
      else if !isPartialCancel then s.setNewDerivativeLimitOrder d.order marketID
      else s
    if isResting || !isPartialCancel then
      s.setSubaccountOrder ((priceKey marketID d.order).owned d.order.orderInfo.subaccountID)
        (newSubaccountOrder d.order)
    else s

/-- What a filled delta does to the price level of its order. -/
def updatePriceLevel (s : Stores) (marketID : Hash) (isResting isPartialCancel : Bool)
    (d : DerivativeLimitOrderDelta LegacyDec) : Stores :=
  if isResting then
    s.decrementOrderbookPriceLevelQuantity (priceKey marketID d.order).level
      (d.fillQuantity + d.cancelQuantity)
  else if !isPartialCancel then
    s.incrementOrderbookPriceLevelQuantity (priceKey marketID d.order).level
      (fillableQuantity d)
  else s

/-- Metadata deltas by subaccount, of both sides of a market. -/
structure MetadataDeltas where
  buys : Store Hash SubaccountOrderbookMetadata
  sells : Store Hash SubaccountOrderbookMetadata

/-- The deltas of one side. -/
def MetadataDeltas.side (m : MetadataDeltas) (isBuy : Bool) :
    Store Hash SubaccountOrderbookMetadata :=
  if isBuy then m.buys else m.sells

/-- The delta of a subaccount, created when missing, after a filled delta. -/
def MetadataDeltas.update (m : MetadataDeltas) (d : DerivativeLimitOrderDelta LegacyDec) :
    MetadataDeltas :=
  let subaccountID := d.order.orderInfo.subaccountID
  let write := fun deltas : Store Hash SubaccountOrderbookMetadata =>
    put subaccountID (some (updateMetadataDelta
      ((deltas.lookup subaccountID).getD newSubaccountOrderbookMetadata) d)) deltas
  if d.order.orderType.isBuy then { m with buys := write m.buys }
  else { m with sells := write m.sells }

/-- One pass of the loop of `UpdateDerivativeLimitOrdersFromFilledDeltas`. -/
def applyFilledDelta (marketID : Hash) (isResting : Bool) (partialCancelOrders : List Hash)
    (acc : Stores × MetadataDeltas) (d : DerivativeLimitOrderDelta LegacyDec) :
    Stores × MetadataDeltas :=
  let isPartialCancel := decide (d.order.orderHash ∈ partialCancelOrders)
  let s := acc.1.updateOrder marketID isResting isPartialCancel d
  (s.updatePriceLevel marketID isResting isPartialCancel d, acc.2.update d)

/-- `applySubaccountOrderbookMetadataDeltas`. -/
def applySubaccountOrderbookMetadataDeltas (s : Stores) (marketID : Hash) (isBuy : Bool)
    (deltas : Store Hash SubaccountOrderbookMetadata) : Stores :=
  (deltas.keys.insertionSort (· ≤ ·)).foldl (fun s subaccountID =>
    let key : MetadataKey := ⟨marketID, subaccountID, isBuy⟩
    s.setSubaccountOrderbookMetadata key (applyDelta (s.getSubaccountOrderbookMetadata key)
      ((deltas.lookup subaccountID).getD newSubaccountOrderbookMetadata))) s

/-- `UpdateDerivativeLimitOrdersFromFilledDeltas`. -/
def updateDerivativeLimitOrdersFromFilledDeltas (s : Stores) (marketID : Hash)
    (isResting : Bool) (filledDeltas : List (DerivativeLimitOrderDelta LegacyDec))
    (partialCancelOrders : List Hash) : Stores :=
  if filledDeltas.isEmpty then s
  else
    let r := filledDeltas.foldl (applyFilledDelta marketID isResting partialCancelOrders)
      (s, ⟨∅, ∅⟩)
    let s := r.1.applySubaccountOrderbookMetadataDeltas marketID true r.2.buys
    s.applySubaccountOrderbookMetadataDeltas marketID false r.2.sells

end Stores

/-! ## Metadata as a group -/

attribute [ext] SubaccountOrderbookMetadata

section Group

/-- The four numbers of a metadata record. -/
def metadataEquiv : SubaccountOrderbookMetadata →
    UInt32 × UInt32 × LegacyDec × LegacyDec :=
  fun m => (m.vanillaLimitOrderCount, m.reduceOnlyLimitOrderCount,
    m.aggregateReduceOnlyQuantity, m.aggregateVanillaQuantity)

theorem metadataEquiv_injective : Function.Injective metadataEquiv := by
  intro m m' h
  simp only [metadataEquiv, Prod.mk.injEq] at h
  obtain ⟨h₁, h₂, h₃, h₄⟩ := h
  exact SubaccountOrderbookMetadata.ext h₁ h₂ h₃ h₄

instance : Zero SubaccountOrderbookMetadata := ⟨newSubaccountOrderbookMetadata⟩
instance : Add SubaccountOrderbookMetadata :=
  ⟨fun m d => ⟨m.1 + d.1, m.2 + d.2, m.3 + d.3, m.4 + d.4⟩⟩
instance : Neg SubaccountOrderbookMetadata := ⟨fun m => ⟨-m.1, -m.2, -m.3, -m.4⟩⟩
instance : Sub SubaccountOrderbookMetadata :=
  ⟨fun m d => ⟨m.1 - d.1, m.2 - d.2, m.3 - d.3, m.4 - d.4⟩⟩
instance : SMul ℕ SubaccountOrderbookMetadata :=
  ⟨fun n m => ⟨n • m.1, n • m.2, n • m.3, n • m.4⟩⟩
instance : SMul ℤ SubaccountOrderbookMetadata :=
  ⟨fun n m => ⟨n • m.1, n • m.2, n • m.3, n • m.4⟩⟩

instance : AddCommGroup SubaccountOrderbookMetadata :=
  metadataEquiv_injective.addCommGroup metadataEquiv rfl (fun _ _ => rfl) (fun _ => rfl)
    (fun _ _ => rfl) (fun _ _ => rfl) (fun _ _ => rfl)

theorem metadata_add (m d : SubaccountOrderbookMetadata) :
    m + d = ⟨m.1 + d.1, m.2 + d.2, m.3 + d.3, m.4 + d.4⟩ := rfl

theorem metadata_sub (m d : SubaccountOrderbookMetadata) :
    m - d = ⟨m.1 - d.1, m.2 - d.2, m.3 - d.3, m.4 - d.4⟩ := rfl

end Group

end ExchangeOrderStore
