import InjectiveCore.ExchangePriceKeysProofs
import InjectiveCore.KeyedStoreProofs

/-!
# Triggered conditional orders — a range of keys read as a range of prices

A conditional order waits in the store under its trigger price, as *higher* or *lower* than
the mark price it was placed at. The orders a new mark price triggers are read as a range of
keys: up to the padded mark price with its last byte raised, or from the padded mark price on.

* **`inTriggerRange_eq_isDue_iff`**: the range is right for a trigger price unless one of the
  two prices has more digits before the point and sorts before the lower one (`Skewed`).
* **`triggered_exact_iff`**: for every set of stored orders and every mark price the query
  returns the due orders, each once, exactly if no order of the market is skewed.
-/

namespace ExchangeConditionalTriggers

open DecArith KeyedStore ExchangeFees ExchangeSubaccountOrders ExchangeOrderKeys
open ExchangePriceKeys

/-! ## The stored orders -/

/-- What is read of a `DerivativeMarketOrder` or a `DerivativeLimitOrder` with a trigger. -/
structure ConditionalOrder where
  orderHash : Hash
  orderType : ExchangeFees.OrderType
  triggerPrice : LegacyDec
  deriving DecidableEq, Repr

/-- The parts of `GetConditionalOrderByTriggerPriceKeyPrefix`. -/
structure OrderKey where
  marketID : Hash
  isTriggerPriceHigher : Bool
  triggerPrice : LegacyDec
  orderHash : Hash
  deriving DecidableEq, Repr

/-- The bytes behind the market and the direction. -/
def OrderKey.suffix (k : OrderKey) : List ℕ :=
  getSubaccountOrderIterationKey k.triggerPrice k.orderHash

/-- The two stores of conditional orders. -/
structure State where
  marketOrders : Store OrderKey ConditionalOrder
  limitOrders : Store OrderKey ConditionalOrder

/-- The store of one kind of orders. -/
def State.orders (s : State) (isMarketOrders : Bool) : Store OrderKey ConditionalOrder :=
  if isMarketOrders then s.marketOrders else s.limitOrders

/-- The key an order is stored under at a mark price. -/
def ConditionalOrder.key (order : ConditionalOrder) (marketID : Hash) (markPrice : LegacyDec) :
    OrderKey :=
  { marketID := marketID, isTriggerPriceHigher := decide (markPrice < order.triggerPrice)
    triggerPrice := order.triggerPrice, orderHash := order.orderHash }

/-- `SetConditionalDerivativeMarketOrder`. -/
def State.setConditionalDerivativeMarketOrder (s : State) (order : ConditionalOrder)
    (marketID : Hash) (markPrice : LegacyDec) : State :=
  { s with marketOrders := put (order.key marketID markPrice) (some order) s.marketOrders }

/-- `SetConditionalDerivativeLimitOrder`. -/
def State.setConditionalDerivativeLimitOrder (s : State) (order : ConditionalOrder)
    (marketID : Hash) (markPrice : LegacyDec) : State :=
  { s with limitOrders := put (order.key marketID markPrice) (some order) s.limitOrders }

/-- An order that is placed, with the mark price of that moment. -/
structure Placement where
  isMarketOrder : Bool
  order : ConditionalOrder
  marketID : Hash
  markPrice : LegacyDec
  valid : validPrice order.triggerPrice = true

def State.place (s : State) (p : Placement) : State :=
  if p.isMarketOrder then s.setConditionalDerivativeMarketOrder p.order p.marketID p.markPrice
  else s.setConditionalDerivativeLimitOrder p.order p.marketID p.markPrice

/-- The stores after the given placements. -/
def placeAll (placements : List Placement) : State := placements.foldl State.place ⟨∅, ∅⟩

/-! ## The query -/

/-- The range of the iterator: below the padded price with its last byte raised, or from the
    padded price on. -/
def inTriggerRange (isTriggerPriceHigher : Bool) (triggerPrice : Option LegacyDec)
    (key : List ℕ) : Bool :=
  if isTriggerPriceHigher then
    match triggerPrice.bind (fun p => addBitToPrefix (getPaddedPrice p)) with
    | none => true
    | some iteratorEnd => decide (key < iteratorEnd)
  else
    match triggerPrice.map getPaddedPrice with
    | none => true
    | some iteratorStart => decide (iteratorStart ≤ key)

/-- `iterateConditionalDerivativeOrders`: the orders in the sequence they are processed. -/
def State.iterateConditionalDerivativeOrders (s : State) (marketID : Hash)
    (isTriggerPriceHigher isMarketOrders : Bool) (triggerPrice : Option LegacyDec) :
    List ConditionalOrder :=
  let found := ((s.orders isMarketOrders).entries.filter (fun e =>
    e.1.marketID = marketID ∧ e.1.isTriggerPriceHigher = isTriggerPriceHigher ∧
      inTriggerRange isTriggerPriceHigher triggerPrice e.1.suffix)).insertionSort
        (fun e e' => e.1.suffix ≤ e'.1.suffix)
  (if isTriggerPriceHigher then found else found.reverse).map (·.2)

/-- The orders of one kind that
    `GetAllConditionalDerivative(Market|Limit)OrdersInMarketUpToPrice` goes through. -/
def State.upToPrice (s : State) (marketID : Hash) (isMarketOrders : Bool)
    (triggerPrice : Option LegacyDec) : List ConditionalOrder :=
  s.iterateConditionalDerivativeOrders marketID true isMarketOrders triggerPrice ++
    s.iterateConditionalDerivativeOrders marketID false isMarketOrders triggerPrice

/-- `ConditionalDerivativeOrderBook`. -/
structure ConditionalDerivativeOrderBook where
  limitBuyOrders : List ConditionalOrder
  marketBuyOrders : List ConditionalOrder
  limitSellOrders : List ConditionalOrder
  marketSellOrders : List ConditionalOrder

/-- `GetAllConditionalDerivativeOrdersUpToMarkPrice`. -/
def State.getAllConditionalDerivativeOrdersUpToMarkPrice (s : State) (marketID : Hash)
    (markPrice : Option LegacyDec) : ConditionalDerivativeOrderBook :=
  { limitBuyOrders := (s.upToPrice marketID false markPrice).filter (·.orderType.isBuy)
    marketBuyOrders := (s.upToPrice marketID true markPrice).filter (·.orderType.isBuy)
    limitSellOrders := (s.upToPrice marketID false markPrice).filter (!·.orderType.isBuy)
    marketSellOrders := (s.upToPrice marketID true markPrice).filter (!·.orderType.isBuy) }

/-- One of the four lists of a book. -/
def ConditionalDerivativeOrderBook.side (b : ConditionalDerivativeOrderBook) :
    Bool → Bool → List ConditionalOrder
  | true, true => b.marketBuyOrders
  | true, false => b.marketSellOrders
  | false, true => b.limitBuyOrders
  | false, false => b.limitSellOrders

/-! ## What is due -/

/-- A mark price triggers the orders above their old mark price that it has reached, and
    likewise those below. -/
def isDue (isTriggerPriceHigher : Bool) (triggerPrice markPrice : LegacyDec) : Bool :=
  if isTriggerPriceHigher then decide (triggerPrice ≤ markPrice)
  else decide (markPrice ≤ triggerPrice)

/-- The stored orders of a kind, a market and a side that a mark price triggers. -/
def State.dueOrders (s : State) (marketID : Hash) (markPrice : LegacyDec)
    (isMarketOrders isBuy : Bool) : List ConditionalOrder :=
  ((s.orders isMarketOrders).entries.filter (fun e =>
    e.1.marketID = marketID ∧ isDue e.1.isTriggerPriceHigher e.2.triggerPrice markPrice ∧
      e.2.orderType.isBuy = isBuy)).map (·.2)

/-- The query returns the due orders, each as often as it is stored, and nothing else. -/
def State.TriggersDue (s : State) (marketID : Hash) (markPrice : LegacyDec) : Prop :=
  ∀ isMarketOrders isBuy,
    ((s.getAllConditionalDerivativeOrdersUpToMarkPrice marketID (some markPrice)).side
      isMarketOrders isBuy).Perm (s.dueOrders marketID markPrice isMarketOrders isBuy)

/-- One of the prices has more digits before the point and sorts before the lower one. -/
def Skewed (p q : LegacyDec) : Prop :=
  Outranks (units p) (units q) ∨ Outranks (units q) (units p)

instance (p q : LegacyDec) : Decidable (Skewed p q) := inferInstanceAs (Decidable (_ ∨ _))

/-! ## A key in the range -/

section Range

variable {p m : LegacyDec} (isHigher : Bool) (h : Hash)

theorem range_of_precedes (hkey : ByteKey.Precedes (getPaddedPrice p) (getPaddedPrice m)) :
    inTriggerRange isHigher (some m) (getSubaccountOrderIterationKey p h) = isHigher := by
  have hlt := (hkey.append (ByteKey.bigEndian 256 32 h.toNat) []).lt
  rw [List.append_nil] at hlt
  cases isHigher with
  | true =>
    rw [inTriggerRange, if_pos rfl, Option.bind_some]
    cases hs : addBitToPrefix (getPaddedPrice m) with
    | none => rfl
    | some iteratorEnd => exact decide_eq_true (hlt.trans (ByteKey.lt_successor hs))
  | false => exact decide_eq_false (not_le_of_gt hlt)

theorem range_of_follows (hkey : ByteKey.Precedes (getPaddedPrice m) (getPaddedPrice p)) :
    inTriggerRange isHigher (some m) (getSubaccountOrderIterationKey p h) = !isHigher := by
  have happ := hkey.append [] (ByteKey.bigEndian 256 32 h.toNat)
  rw [List.append_nil] at happ
  cases isHigher with
  | true =>
    obtain ⟨s, hs, hle⟩ := happ.successor_le (fun d => lt_255_of_mem_getPaddedPrice)
    rw [inTriggerRange, if_pos rfl, Option.bind_some, addBitToPrefix, hs]
    exact decide_eq_false (not_lt_of_ge hle)
  | false => exact decide_eq_true happ.lt.le

/-- The range includes the mark price itself, whatever hash follows it. -/
theorem range_self :
    inTriggerRange isHigher (some m) (getSubaccountOrderIterationKey m h) = true := by
  cases isHigher with
  | true =>
    rw [inTriggerRange, if_pos rfl, Option.bind_some]
    cases hs : addBitToPrefix (getPaddedPrice m) with
    | none => rfl
    | some iteratorEnd =>
      have hlt := ((ByteKey.precedes_successor hs).append (ByteKey.bigEndian 256 32 h.toNat) []).lt
      rw [List.append_nil] at hlt
      exact decide_eq_true hlt
  | false =>
    have hle := ByteKey.append_le_append_left (getPaddedPrice m)
      (not_lt.mp (List.not_lt_nil (ByteKey.bigEndian 256 32 h.toNat)))
    rw [List.append_nil] at hle
    exact decide_eq_true hle

theorem not_outranks_of_le (hle : p ≤ m) : ¬Outranks (units m) (units p) := by
  rintro ⟨hw, -⟩
  have hraw : p.raw ≤ m.raw := hle
  exact absurd hw (not_lt_of_ge (width_mono (Nat.div_le_div_right (Int.toNat_le_toNat hraw))))

/-- **RANGE OF PRICES**: a trigger price is in the range of keys of a mark price if and only
    if it is due, unless the two prices are skewed; then it is in it if it is not due. -/
theorem inTriggerRange_eq_isDue_iff (hp : 0 < p) (hm : 0 < m) :
    inTriggerRange isHigher (some m) (getSubaccountOrderIterationKey p h) =
      isDue isHigher p m ↔ ¬Skewed p m := by
  have hneg : ∀ b : Bool, (!b) ≠ b := by decide
  rcases lt_trichotomy p m with hlt | rfl | hlt
  · have hdue : isDue isHigher p m = isHigher := by
      cases isHigher
      · exact decide_eq_false (not_le_of_gt hlt)
      · exact decide_eq_true hlt.le
    rw [hdue, Skewed, or_iff_left (not_outranks_of_le hlt.le)]
    by_cases hout : Outranks (units p) (units m)
    · rw [range_of_follows isHigher h ((padded_precedes hp.le hlt).2 hout)]
      exact iff_of_false (hneg isHigher) (not_not_intro hout)
    · rw [range_of_precedes isHigher h ((padded_precedes hp.le hlt).1 hout)]
      exact iff_of_true rfl hout
  · have hdue : isDue isHigher p p = true := by
      cases isHigher <;> exact decide_eq_true (le_refl p)
    rw [hdue, range_self]
    exact iff_of_true rfl (not_or.mpr ⟨not_outranks_of_le le_rfl, not_outranks_of_le le_rfl⟩)
  · have hdue : isDue isHigher p m = !isHigher := by
      cases isHigher
      · exact decide_eq_true hlt.le
      · exact decide_eq_false (not_le_of_gt hlt)
    rw [hdue, Skewed, or_iff_right (not_outranks_of_le hlt.le)]
    by_cases hout : Outranks (units m) (units p)
    · rw [range_of_precedes isHigher h ((padded_precedes hm.le hlt).2 hout)]
      exact iff_of_false (hneg isHigher).symm (not_not_intro hout)
    · rw [range_of_follows isHigher h ((padded_precedes hm.le hlt).1 hout)]
      exact iff_of_true rfl hout

end Range

/-! ## Every set of stored orders -/

/-- The entry a placement writes. -/
def Placement.entry (p : Placement) : (_ : OrderKey) × ConditionalOrder :=
  ⟨p.order.key p.marketID p.markPrice, p.order⟩

variable {isMarketOrders : Bool} {e : (_ : OrderKey) × ConditionalOrder}

/-- A placement adds at most its own entry to the store of its kind. -/
theorem mem_place {s : State} {p : Placement}
    (he : e ∈ ((s.place p).orders isMarketOrders).entries) :
    e ∈ (s.orders isMarketOrders).entries ∨ p.isMarketOrder = isMarketOrders ∧ e = p.entry := by
  obtain ⟨k, o⟩ := e
  have hput : ∀ orders : Store OrderKey ConditionalOrder,
      ⟨k, o⟩ ∈ (put (p.order.key p.marketID p.markPrice) (some p.order) orders).entries →
        ⟨k, o⟩ ∈ orders.entries ∨ ⟨k, o⟩ = p.entry := by
    intro orders hmem
    rw [mem_entries_iff, lookup_put] at hmem
    split at hmem
    · next hk =>
      cases hmem
      exact Or.inr (by rw [hk]; rfl)
    · exact Or.inl (mem_entries_iff.mpr hmem)
  cases hkind : p.isMarketOrder <;> rw [State.place, hkind] at he <;> cases isMarketOrders
  · exact (hput _ he).imp_right (And.intro rfl)
  · exact Or.inl he
  · exact Or.inl he
  · exact (hput _ he).imp_right (And.intro rfl)

/-- Every stored entry is that of a placement. -/
theorem exists_placement {placements : List Placement}
    (he : e ∈ ((placeAll placements).orders isMarketOrders).entries) :
    ∃ p ∈ placements, p.isMarketOrder = isMarketOrders ∧ e = p.entry := by
  induction placements using List.reverseRecOn with
  | nil => cases isMarketOrders <;> cases he
  | append_singleton placements p ih =>
    rw [placeAll, List.foldl_append] at he
    rcases mem_place he with hold | hnew
    · obtain ⟨q, hq, hentry⟩ := ih hold
      exact ⟨q, List.mem_append_left _ hq, hentry⟩
    · exact ⟨p, List.mem_append_right _ (List.mem_singleton_self p), hnew⟩

/-- Both directions together read the entries of the market in the range of their
    direction. -/
theorem upToPrice_perm (s : State) (marketID : Hash) (isMarketOrders : Bool)
    (triggerPrice : Option LegacyDec) :
    (s.upToPrice marketID isMarketOrders triggerPrice).Perm
      (((s.orders isMarketOrders).entries.filter (fun e => e.1.marketID = marketID ∧
        inTriggerRange e.1.isTriggerPriceHigher triggerPrice e.1.suffix)).map (·.2)) := by
  have hdirection : ∀ isHigher,
      (s.iterateConditionalDerivativeOrders marketID isHigher isMarketOrders triggerPrice).Perm
        ((((s.orders isMarketOrders).entries.filter (fun e => e.1.marketID = marketID ∧
          inTriggerRange e.1.isTriggerPriceHigher triggerPrice e.1.suffix)).filter
            (fun e => e.1.isTriggerPriceHigher == isHigher)).map (·.2)) := by
    intro isHigher
    rw [State.iterateConditionalDerivativeOrders, List.filter_filter]
    refine List.Perm.map _ ?_
    have hsort : ∀ l : List ((_ : OrderKey) × ConditionalOrder),
        (if isHigher then l else l.reverse).Perm l := by
      intro l
      cases isHigher
      · exact List.reverse_perm l
      · exact List.Perm.refl l
    refine ((hsort _).trans (List.perm_insertionSort _ _)).trans (List.Perm.of_eq ?_)
    refine List.filter_congr ?_
    rintro ⟨⟨market, higher, price, hash⟩, o⟩ -
    by_cases hh : higher = isHigher
    · subst hh
      simp
    · simp [hh]
  refine ((hdirection true).append (hdirection false)).trans ?_
  rw [← List.map_append]
  refine List.Perm.map _ ?_
  have hsplit := List.filter_append_perm (fun e : (_ : OrderKey) × ConditionalOrder =>
    e.1.isTriggerPriceHigher) ((s.orders isMarketOrders).entries.filter (fun e =>
      e.1.marketID = marketID ∧ inTriggerRange e.1.isTriggerPriceHigher triggerPrice e.1.suffix))
  simpa using hsplit

theorem side_perm (s : State) (marketID : Hash) (markPrice : Option LegacyDec)
    (isMarketOrders isBuy : Bool) :
    ((s.getAllConditionalDerivativeOrdersUpToMarkPrice marketID markPrice).side
      isMarketOrders isBuy).Perm
      (((s.orders isMarketOrders).entries.filter (fun e => e.1.marketID = marketID ∧
        inTriggerRange e.1.isTriggerPriceHigher markPrice e.1.suffix ∧
          e.2.orderType.isBuy = isBuy)).map (·.2)) := by
  have hside : (s.getAllConditionalDerivativeOrdersUpToMarkPrice marketID markPrice).side
      isMarketOrders isBuy =
        (s.upToPrice marketID isMarketOrders markPrice).filter
          (fun o => o.orderType.isBuy == isBuy) := by
    cases isMarketOrders <;> cases isBuy <;>
      simp [State.getAllConditionalDerivativeOrdersUpToMarkPrice,
        ConditionalDerivativeOrderBook.side]
  rw [hside]
  refine ((upToPrice_perm s marketID isMarketOrders markPrice).filter _).trans ?_
  rw [List.filter_map, List.filter_filter]
  refine List.Perm.of_eq (congrArg _ (List.filter_congr ?_))
  intro e _
  simp [Bool.and_comm, Bool.and_assoc, beq_eq_decide]

/-- **DUE ORDERS, EXACTLY**: for every set of placed orders, every market and every positive
    mark price, the query returns the due orders of the market, each once, if none of them
    is skewed against the mark price; and only then, for orders that were stored once. -/
theorem triggered_exact_iff (placements : List Placement) (marketID : Hash)
    (markPrice : LegacyDec) (hmark : 0 < markPrice) :
    ((∀ isMarketOrders, ∀ e ∈ ((placeAll placements).orders isMarketOrders).entries,
        e.1.marketID = marketID → ¬Skewed e.2.triggerPrice markPrice) →
      (placeAll placements).TriggersDue marketID markPrice) ∧
    ((placements.map Placement.order).Nodup →
      (placeAll placements).TriggersDue marketID markPrice →
      ∀ isMarketOrders, ∀ e ∈ ((placeAll placements).orders isMarketOrders).entries,
        e.1.marketID = marketID → ¬Skewed e.2.triggerPrice markPrice) := by
  have hrange : ∀ isMarketOrders, ∀ e ∈ ((placeAll placements).orders isMarketOrders).entries,
      inTriggerRange e.1.isTriggerPriceHigher (some markPrice) e.1.suffix =
        isDue e.1.isTriggerPriceHigher e.2.triggerPrice markPrice ↔
          ¬Skewed e.2.triggerPrice markPrice := by
    intro isMarketOrders e he
    obtain ⟨p, -, -, rfl⟩ := exists_placement he
    exact inTriggerRange_eq_isDue_iff _ _ (validPrice_iff.mp p.valid).1 hmark
  constructor
  · intro hskew isMarketOrders isBuy
    refine (side_perm _ marketID _ isMarketOrders isBuy).trans (List.Perm.of_eq ?_)
    refine congrArg _ (List.filter_congr ?_)
    intro e he
    by_cases hmarket : e.1.marketID = marketID
    · rw [(hrange isMarketOrders e he).mpr (hskew isMarketOrders e he hmarket)]
    · simp [hmarket]
  · intro hnodup hexact isMarketOrders e he hmarket
    refine (hrange isMarketOrders e he).mp ?_
    -- an order stored once is returned if its entry is in the range
    have hinj : ∀ e' ∈ ((placeAll placements).orders isMarketOrders).entries, e'.2 = e.2 →
        e' = e := by
      intro e' he' heq
      obtain ⟨p, hp, -, rfl⟩ := exists_placement he
      obtain ⟨p', hp', -, rfl⟩ := exists_placement he'
      rw [List.inj_on_of_nodup_map hnodup hp' hp heq]
    have hmem := ((side_perm (placeAll placements) marketID (some markPrice) isMarketOrders
      e.2.orderType.isBuy).symm.trans (hexact isMarketOrders _)).mem_iff (a := e.2)
    rw [State.dueOrders, List.mem_map, List.mem_map] at hmem
    rw [Bool.eq_iff_iff]
    constructor
    · intro hin
      obtain ⟨e', he', heq⟩ := hmem.mp
        ⟨e, List.mem_filter.mpr ⟨he, decide_eq_true ⟨hmarket, hin, rfl⟩⟩, rfl⟩
      obtain ⟨hold, hdue⟩ := List.mem_filter.mp he'
      rw [hinj e' hold heq] at hdue
      exact (of_decide_eq_true hdue).2.1
    · intro hdue
      obtain ⟨e', he', heq⟩ := hmem.mpr
        ⟨e, List.mem_filter.mpr ⟨he, decide_eq_true ⟨hmarket, hdue, rfl⟩⟩, rfl⟩
      obtain ⟨hold, hin⟩ := List.mem_filter.mp he'
      rw [hinj e' hold heq] at hin
      exact (of_decide_eq_true hin).2.1

/-- A stop buy at the given trigger price. -/
def samplePlacement (triggerPrice markPrice : LegacyDec)
    (valid : validPrice triggerPrice = true) : Placement :=
  { isMarketOrder := true, marketID := 1, markPrice := markPrice, valid := valid
    order := { orderHash := 7, orderType := .stopBuy, triggerPrice := triggerPrice } }

/-- A stop buy at 2 and one at 4. -/
def samplePlacements : List Placement :=
  [samplePlacement (newDec 2) (newDec 1) (by decide),
    { samplePlacement (newDec 4) (newDec 1) (by decide) with
      order := { orderHash := 8, orderType := .stopBuy, triggerPrice := newDec 4 } }]

/-- At a mark price of 3 the stop buy at 2 is due and returned, the one at 4 is not. -/
theorem triggered_exact_sample :
    (0 : LegacyDec) < newDec 3 ∧ (placeAll samplePlacements).TriggersDue 1 (newDec 3) := by
  refine ⟨by decide, (triggered_exact_iff _ 1 (newDec 3) (by decide)).1 ?_⟩
  intro isMarketOrders e he _
  obtain ⟨p, hp, -, rfl⟩ := exists_placement he
  rw [samplePlacements, List.mem_pair] at hp
  rcases hp with rfl | rfl <;> decide +kernel

/-- **SKEWED PRICES**: a stop buy at `MaxOrderPrice` is returned at a mark price of
    `2 * 10 ^ 31`, where it is not due; and a stop buy at `5 * 10 ^ 31` is due and not
    returned at a mark price of `10 ^ 32`. -/
theorem skewed_prices_mistrigger :
    ((placeAll [samplePlacement maxOrderPrice (newDec 1) (by decide)]).dueOrders 1
        (newDec (2 * 10 ^ 31)) true true = [] ∧
      ((placeAll [samplePlacement maxOrderPrice (newDec 1)
        (by decide)]).getAllConditionalDerivativeOrdersUpToMarkPrice 1
          (some (newDec (2 * 10 ^ 31)))).marketBuyOrders =
        [{ orderHash := 7, orderType := .stopBuy, triggerPrice := maxOrderPrice }]) ∧
    (placeAll [samplePlacement (newDec (5 * 10 ^ 31)) (newDec 1) (by decide)]).dueOrders 1
        (newDec (10 ^ 32)) true true =
        [{ orderHash := 7, orderType := .stopBuy, triggerPrice := newDec (5 * 10 ^ 31) }] ∧
      ((placeAll [samplePlacement (newDec (5 * 10 ^ 31)) (newDec 1)
        (by decide)]).getAllConditionalDerivativeOrdersUpToMarkPrice 1
          (some (newDec (10 ^ 32)))).marketBuyOrders = [] := by
  decide +kernel

end ExchangeConditionalTriggers
