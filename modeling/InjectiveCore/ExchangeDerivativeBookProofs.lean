import InjectiveCore.ExchangeFbaProofs
import InjectiveCore.ExchangeMatchStateProofs

/-!
# Derivative limit order books

A derivative limit order book merges resting and transient orders like a spot book, but
an order has to pass a series of checks each time it comes up: emergency pause, validity
of reduce-only orders, closing at a price its position can bear, margin requirement and
the open notional cap. An order that fails is cancelled and the book goes on to the next
one; what it had been filled stays filled.

- `checkCurrOrder_spec`: whatever the checks answer, they only look positions up, and an
  admitted order of a book that is not liquidating respects the cap.
- `peek_spec`: a book offers the best order that is left; on the way it may cancel
  orders, but it moves no fill, no total and no counter of its fills.
- `fill_spec`: a fill is recorded on the order, and its signed quantity on the cached
  position of the order's subaccount.
- `sideSpec`: whatever else happens on the shared state, a book is price-ordered.
-/

namespace ExchangeDerivativeBook

open DecArith MatchLoop TwoQueue GrossExposure ExchangePosition ExchangeFees ExchangeFba
  ExchangeDerivativeFill ExchangeMatchState

variable {R D : Type} [DecArith D]

/-! ## Checks on an order -/

/-- `isValidReduceOnlyOrder`, for a position that has been looked up. -/
def isValidReduceOnlyOrder (position : Position D) (isBuy : Bool) (remainingFillable : D) :
    Bool :=
  if isBuy = position.isLong then false
  else if position.quantity < remainingFillable then false
  else true

/-- Whether an order that closes a position fails `CheckValidPositionToReduce`. The
    price is the order's own, not the clearing price. -/
def failsClosingCheck (E : MatchEnv R D) (risk : R) (order : IDerivativeOrder D)
    (isBuy : Bool) (position : Position D) (remainingFillable tradeFeeRate : D) : Bool :=
  let isClosingPosition :=
    order.orderType.isBuy ≠ position.isLong ∧ 0 < position.quantity
  let closingQuantity := min remainingFillable position.quantity
  let closeExecutionMargin :=
    quo (mul order.margin closingQuantity) order.orderInfo.quantity
  decide isClosingPosition &&
    E.riskEngine.checkValidPositionToReduce risk order.subaccountID position
      order.orderInfo.price isBuy tradeFeeRate closeExecutionMargin

/-- The cap check both kinds of order book make: whether the order is turned away, and
    the notional delta cached for the other side. -/
def checkOpenNotionalCap (E : MatchEnv R D) (opposite : D) (n : CapCounters D)
    (c : MatchState R D) (order : IDerivativeOrder D) (remainingFillable : D) : Bool × D :=
  let r := doesBreachOpenNotionalCap order.orderType remainingFillable E.mark
    (n.getTotalOpenNotional E opposite)
    (signedQuantity (c.positionCache order.subaccountID)) E.fill.market.openNotionalCap
  (r.1, if r.1 then 0 else r.2)

/-- The cap check an order passed at its full remaining size. -/
def PassesCap (E : MatchEnv R D) (opposite : D) (n : CapCounters D) (c : MatchState R D)
    (order : IDerivativeOrder D) (remainingFillable : D) : Prop :=
  doesBreachOpenNotionalCap order.orderType remainingFillable E.mark
    (n.getTotalOpenNotional E opposite) (c.matchedQuantity E order.subaccountID)
    E.fill.market.openNotionalCap = (false, n.cachedAddedOpenNotional)

variable {E : MatchEnv R D} {c : MatchState R D}

theorem checkOpenNotionalCap_passes {opposite : D} {n : CapCounters D}
    {order : IDerivativeOrder D} {q : D} (hc : (c.positionCache order.subaccountID).isSome)
    (h : ¬(checkOpenNotionalCap E opposite n c order q).1 = true) :
    PassesCap E opposite { n with
      cachedAddedOpenNotional := (checkOpenNotionalCap E opposite n c order q).2 } c order
      q := by
  rw [PassesCap, ← signedQuantity_cache E hc]
  simp only [checkOpenNotionalCap, Bool.not_eq_true] at h ⊢
  exact Prod.ext h (by rw [h]; rfl)

/-- What the checks on the current order leave: whether it may be matched, the notional
    delta cached for the other side, and the shared state. -/
structure Check (R D : Type) where
  admitted : Bool
  cachedAddedOpenNotional : D
  state : MatchState R D

/-- `DecrementLastLookOLR` for the quantity left of an order. -/
def decrementLastLookOLR (E : MatchEnv R D) (c : MatchState R D)
    (order : IDerivativeOrder D) (remainingFillable : D) : MatchState R D :=
  { c with risk := E.riskEngine.decrementLastLookOLR c.risk order remainingFillable }

/-- `ShouldSkipDerivativeOrderForMarginRequirement`, not asked for reduce-only orders. -/
def shouldSkipForMarginRequirement (E : MatchEnv R D) (c : MatchState R D)
    (order : IDerivativeOrder D) (isReduceOnly : Bool) (remainingFillable : D) :
    Bool × MatchState R D :=
  if isReduceOnly then (false, c)
  else
    let r := E.riskEngine.shouldSkipDerivativeOrderForMarginRequirement c.risk order
      remainingFillable
    (r.1, { c with risk := r.2 })

variable {c' : MatchState R D}

theorem decrementLastLookOLR_extends (h : c.Extends E c') (order : IDerivativeOrder D) (q : D) :
    c.Extends E (decrementLastLookOLR E c' order q) :=
  h.withRisk _

theorem shouldSkipForMarginRequirement_extends (h : c.Extends E c')
    (order : IDerivativeOrder D) (isReduceOnly : Bool) (q : D) :
    c.Extends E (shouldSkipForMarginRequirement E c' order isReduceOnly q).2 := by
  rw [shouldSkipForMarginRequirement]
  split
  · exact h
  · exact h.withRisk _

/-! ## The book -/

/-- An order of `OrderbookFills` with its fill quantity. `isCancelled` says that the
    order is in `restingOrdersToCancel` or `transientOrdersToCancel`: a cancelled
    resting order counts as having nothing left, and `transientOrderIdx` is past a
    cancelled transient one. -/
structure BookFill (D : Type) where
  order : DerivativeLimitOrder D
  fillQuantity : D
  isCancelled : Bool
  deriving DecidableEq, Repr

/-- The order with more of it filled. -/
def BookFill.add (e : BookFill D) (fillQuantity : D) : BookFill D :=
  { e with fillQuantity := e.fillQuantity + fillQuantity }

/-- The order, cancelled. -/
def BookFill.cancel (e : BookFill D) : BookFill D := { e with isCancelled := true }

/-- An order and what it was filled, cancelled or not. -/
def BookFill.core (e : BookFill D) : DerivativeLimitOrder D × D := (e.order, e.fillQuantity)

/-- How the book reads its orders. -/
@[simps] def reader : Reader (DerivativeLimitOrder D) (BookFill D) D where
  load o := ⟨o, 0, false⟩
  remaining e := if e.isCancelled then 0 else e.order.fillable - e.fillQuantity
  price e := e.order.orderInfo.price
  skip _ := false

/-- `LimitOrderbook`. The queue holds the resting fills with the store iterator and the
    transient fills split at `transientOrderIdx`; `currState` is the lane of the current
    order. -/
structure LimitOrderbook (D : Type) where
  isBuy : Bool
  isLiquidation : Bool
  notional : D
  totalQuantity : D
  queue : Queue (DerivativeLimitOrder D) (BookFill D)
  currState : Option Lane
  orderCancelHashes : List Hash
  partialCancelOrders : List Hash
  restingOrdersToCancel : List (DerivativeLimitOrder D)
  transientOrdersToCancel : List (DerivativeLimitOrder D)
  counters : CapCounters D
  deriving DecidableEq, Repr

namespace LimitOrderbook

/-- A book before matching. -/
def initial (resting transient : List (DerivativeLimitOrder D))
    (isBuy isLiquidation : Bool) : LimitOrderbook D :=
  { isBuy := isBuy
    isLiquidation := isLiquidation
    notional := 0
    totalQuantity := 0
    queue := { fetched := [], iterator := resting, passed := []
               pending := transient.map (fun o => ⟨o, 0, false⟩) }
    currState := none
    orderCancelHashes := []
    partialCancelOrders := []
    restingOrdersToCancel := []
    transientOrdersToCancel := []
    counters := .initial }

/-- `NewLimitOrderbook`: nil without orders. -/
def newLimitOrderbook (resting transient : List (DerivativeLimitOrder D))
    (isBuy isLiquidation : Bool) : Option (LimitOrderbook D) :=
  if transient.isEmpty && resting.isEmpty then none
  else some (initial resting transient isBuy isLiquidation)

/-- `GetTransientOrderbookFills`: orders cancelled without a fill are left out. -/
def getTransientOrderbookFills (b : LimitOrderbook D) : List (BookFill D) :=
  if b.transientOrdersToCancel.isEmpty then b.queue.passed ++ b.queue.pending
  else (b.queue.passed ++ b.queue.pending).filter
    (fun e => e.order.orderHash ∉ b.orderCancelHashes)

/-- `GetRestingOrderbookFills`. -/
def getRestingOrderbookFills (b : LimitOrderbook D) : List (BookFill D) :=
  if b.restingOrdersToCancel.isEmpty && b.orderCancelHashes.isEmpty then
    b.queue.fetched.reverse
  else b.queue.fetched.reverse.filter
    (fun e => e.order.orderHash ∉ b.orderCancelHashes)

/-- `getCurrOrderTradeFeeRate`: resting orders are makers. -/
def getCurrOrderTradeFeeRate (E : MatchEnv R D) : Lane → D
  | .resting => E.fill.market.makerFeeRate
  | .transient => E.fill.market.takerFeeRate

/-- `doesBreachOpenNotionalCapForLimitOrderbook`: orders that a liquidation is matched
    against are not held to the cap. -/
def doesBreachOpenNotionalCapForLimitOrderbook (E : MatchEnv R D) (opposite : D)
    (b : LimitOrderbook D) (c : MatchState R D) (e : BookFill D) : Bool × D :=
  if b.isLiquidation then (false, b.counters.cachedAddedOpenNotional)
  else checkOpenNotionalCap E opposite b.counters c (.limit e.order)
    (e.order.fillable - e.fillQuantity)

/-- The checks `advanceNewOrder` makes on the current order, in its order. A pause does
    not stop orders that a liquidation is matched against. -/
def checkCurrOrder (E : MatchEnv R D) (opposite : D) (b : LimitOrderbook D) (lane : Lane)
    (e : BookFill D) (c₀ : MatchState R D) : Check R D :=
  let order := IDerivativeOrder.limit e.order
  let fillable := e.order.fillable - e.fillQuantity
  let position := (checkAndInitializePosition E b.isBuy c₀ order.subaccountID).1
  let c := (checkAndInitializePosition E b.isBuy c₀ order.subaccountID).2
  let cached := b.counters.cachedAddedOpenNotional
  if !b.isLiquidation &&
      E.riskEngine.checkCrossMarginEmergencyPause c.risk order.subaccountID then
    ⟨false, cached, decrementLastLookOLR E c order fillable⟩
  else if e.order.isReduceOnly &&
      !isValidReduceOnlyOrder position e.order.orderType.isBuy fillable then
    ⟨false, cached, c⟩
  else if failsClosingCheck E c.risk order b.isBuy position fillable
      (getCurrOrderTradeFeeRate E lane) then
    ⟨false, cached, decrementLastLookOLR E c order fillable⟩
  else
    let skip := shouldSkipForMarginRequirement E c order e.order.isReduceOnly fillable
    let breach := doesBreachOpenNotionalCapForLimitOrderbook E opposite b skip.2 e
    if skip.1 then ⟨false, cached, skip.2⟩
    else if breach.1 then ⟨false, breach.2, decrementLastLookOLR E skip.2 order fillable⟩
    else ⟨true, breach.2, skip.2⟩

/-- `addInvalidOrderToCancelsAndAdvanceToNextOrder`: an order with a fill is only
    partially cancelled, so that its fill is kept. -/
def addInvalidOrderToCancelsAndAdvanceToNextOrder (b : LimitOrderbook D) (lane : Lane)
    (e : BookFill D) : LimitOrderbook D :=
  { b with
    partialCancelOrders := if 0 < e.fillQuantity then
      b.partialCancelOrders ++ [e.order.orderHash] else b.partialCancelOrders
    orderCancelHashes := if 0 < e.fillQuantity then b.orderCancelHashes
      else b.orderCancelHashes ++ [e.order.orderHash]
    restingOrdersToCancel := if lane = .resting then
      b.restingOrdersToCancel ++ [e.order] else b.restingOrdersToCancel
    transientOrdersToCancel := if lane = .resting then b.transientOrdersToCancel
      else b.transientOrdersToCancel ++ [e.order]
    queue := b.queue.modify BookFill.cancel lane
    currState := none }

/-- The book with the lane of the best order selected. -/
def selectOrder (b : LimitOrderbook D) : LimitOrderbook D :=
  { b with queue := (b.queue.select reader b.isBuy).2
           currState := (b.queue.select reader b.isBuy).1 }

/-- The book with another cached notional delta. -/
def withCached (b : LimitOrderbook D) (cached : D) : LimitOrderbook D :=
  { b with counters := { b.counters with cachedAddedOpenNotional := cached } }

/-- `Peek` with the loop of `advanceNewOrder`, bounded: the current order is looked for
    anew, cancelled if it fails a check, and passed over if nothing of it remains. -/
def peekLoop (E : MatchEnv R D) (opposite : D) :
    ℕ → LimitOrderbook D → MatchState R D →
      Option (PriceLevel D) × LimitOrderbook D × MatchState R D
  | 0, b, c => (none, b, c)
  | n + 1, b, c =>
    let b₁ := b.selectOrder
    match b₁.currState with
    | none => (none, b₁, c)
    | some lane =>
      match b₁.queue.current lane with
      | none => (none, b₁, c)
      | some e =>
        let check := b₁.checkCurrOrder E opposite lane e c
        let b₂ := b₁.withCached check.cachedAddedOpenNotional
        if check.admitted then
          if e.order.fillable - e.fillQuantity = 0 then
            peekLoop E opposite n { b₂ with currState := none } check.state
          else
            (some ⟨e.order.orderInfo.price, e.order.fillable - e.fillQuantity⟩, b₂,
              check.state)
        else
          peekLoop E opposite n
            (b₂.addInvalidOrderToCancelsAndAdvanceToNextOrder lane e) check.state

/-- `Peek`. Every round fetches an order or leaves one order less that is open. -/
def peek (E : MatchEnv R D) (opposite : D) (b : LimitOrderbook D) (c : MatchState R D) :
    Option (PriceLevel D) × LimitOrderbook D × MatchState R D :=
  peekLoop E opposite (b.queue.iterator.length + (b.queue.entries reader).length + 1) b c

/-- `Fill`: an order that is full is no longer current. -/
def fill (E : MatchEnv R D) (b : LimitOrderbook D) (c : MatchState R D)
    (fillQuantity : D) : LimitOrderbook D × MatchState R D :=
  match b.currState with
  | none => (b, c)
  | some lane =>
    match b.queue.current lane with
    | none => (b, c)
    | some e =>
      let r := updateNotionalCapValuesAfterFill E b.counters c (.limit e.order)
        (getCurrOrderTradeFeeRate E lane) fillQuantity
      ({ b with
         notional := b.notional + mul fillQuantity e.order.orderInfo.price
         totalQuantity := b.totalQuantity + fillQuantity
         queue := b.queue.modify (fun e => e.add fillQuantity) lane
         counters := r.1
         currState :=
           if e.fillQuantity + fillQuantity = e.order.fillable then none
           else some lane }, r.2)

/-- All orders of the book with their fills. -/
def entries (b : LimitOrderbook D) : List (BookFill D) := b.queue.entries reader

end LimitOrderbook

/-! ## What the checks do -/

section Checks

open LimitOrderbook

/-- What is known once an order has been checked. -/
structure Checked (E : MatchEnv R D) (opposite : D) (b : LimitOrderbook D)
    (e : BookFill D) (c : MatchState R D) (check : Check R D) : Prop where
  state : c.Extends E check.state
  cached : (check.state.positionCache e.order.orderInfo.subaccountID).isSome
  cap : check.admitted = true → b.isLiquidation = false →
    PassesCap E opposite (b.withCached check.cachedAddedOpenNotional).counters
      check.state (.limit e.order) (e.order.fillable - e.fillQuantity)

/-- **THE CHECKS** only look positions up, and admit an order only within the cap. -/
theorem checkCurrOrder_spec (E : MatchEnv R D) (opposite : D) (b : LimitOrderbook D)
    (lane : Lane) (e : BookFill D) (c : MatchState R D) :
    Checked E opposite b e c (b.checkCurrOrder E opposite lane e c) := by
  obtain ⟨hext, hcache⟩ := checkAndInitializePosition_spec E b.isBuy c
    e.order.orderInfo.subaccountID
  simp only [checkCurrOrder]
  set c₁ := (checkAndInitializePosition E b.isBuy c (IDerivativeOrder.limit e.order).subaccountID).2
  -- all answers are given on a state that extends the one with the position looked up
  have hstate : ∀ {c'}, c₁.Extends E c' → c.Extends E c' ∧
      (c'.positionCache e.order.orderInfo.subaccountID).isSome = true := by
    intro c' h'
    exact ⟨hext.trans h', by rw [h'.cache _ _ hcache]; rfl⟩
  have hrejected : ∀ cached c', c₁.Extends E c' →
      Checked E opposite b e c ⟨false, cached, c'⟩ :=
    fun _ _ h' => ⟨(hstate h').1, (hstate h').2, fun h => (nomatch h)⟩
  have hrefl := MatchState.Extends.refl E c₁
  split
  · exact hrejected _ _ (decrementLastLookOLR_extends hrefl _ _)
  · split
    · exact hrejected _ _ hrefl
    · split
      · exact hrejected _ _ (decrementLastLookOLR_extends hrefl _ _)
      · have hskip := shouldSkipForMarginRequirement_extends hrefl
          (IDerivativeOrder.limit e.order) e.order.isReduceOnly
          (e.order.fillable - e.fillQuantity)
        split
        · exact hrejected _ _ hskip
        · split
          · exact hrejected _ _ (decrementLastLookOLR_extends hskip _ _)
          · next hbreach =>
              refine ⟨(hstate hskip).1, (hstate hskip).2, ?_⟩
              intro _ hliq
              rw [doesBreachOpenNotionalCapForLimitOrderbook, hliq,
                if_neg Bool.false_ne_true] at hbreach ⊢
              exact checkOpenNotionalCap_passes (hstate hskip).2 hbreach

end Checks

/-! ## The orders of a side -/

/-- The orders of one side in the order in which the store and the block hand them out: all
    in the direction of the side, nothing overfilled, and no order hash used twice. -/
structure SideOrders (D : Type) [DecArith D] (isBuy : Bool) where
  resting : List (DerivativeLimitOrder D)
  transient : List (DerivativeLimitOrder D)
  fillable_nonneg : ∀ o ∈ resting ++ transient, 0 ≤ o.fillable
  direction : ∀ o ∈ resting ++ transient, o.orderType.isBuy = isBuy
  hashes_nodup : ((resting ++ transient).map (·.orderHash)).Nodup

/-- Both lists of a side are in price order, as in a spot book. -/
def SideOrders.Sorted {isBuy : Bool} (side : SideOrders D isBuy) : Prop :=
  InPriceOrder isBuy (side.resting.map (·.orderInfo.price)) ∧
    InPriceOrder isBuy (side.transient.map (·.orderInfo.price))

/-- The book of a side before matching. -/
def SideOrders.book {isBuy : Bool} (side : SideOrders D isBuy) (isLiquidation : Bool) :
    LimitOrderbook D :=
  .initial side.resting side.transient isBuy isLiquidation

/-- An order can be matched while it is not cancelled and something of it remains. -/
theorem live_iff (e : BookFill D) :
    reader.Live e ↔ e.isCancelled = false ∧ e.order.fillable - e.fillQuantity ≠ 0 := by
  rw [Reader.Live, reader_remaining, reader_skip]
  cases e.isCancelled
  · simp
  · simp

namespace LimitOrderbook

/-! ## The invariant of a book -/

/-- What a book of the given orders keeps through a matching run. -/
structure Inv {isBuy : Bool} (side : SideOrders D isBuy) (b : LimitOrderbook D) :
    Prop where
  direction : b.isBuy = isBuy
  wf : b.queue.WF reader side.Sorted isBuy
  orders : b.entries.map BookFill.order = side.resting ++ side.transient
  transient : (b.queue.passed ++ b.queue.pending).map BookFill.order = side.transient
  bounds : ∀ e ∈ b.entries, 0 ≤ e.fillQuantity ∧ e.fillQuantity ≤ e.order.fillable
  total : b.totalQuantity = (b.entries.map BookFill.fillQuantity).sum
  cancelled : ∀ e ∈ b.entries, e.order.orderHash ∈ b.orderCancelHashes →
    e.isCancelled = true ∧ e.fillQuantity = 0

/-- What a peek leaves alone: fills, totals and the counters of the fills. Orders may
    cease to be open. -/
structure Kept (b b' : LimitOrderbook D) : Prop where
  isLiquidation : b'.isLiquidation = b.isLiquidation
  notional : b'.notional = b.notional
  totalQuantity : b'.totalQuantity = b.totalQuantity
  added : b'.counters.addedOpenNotional = b.counters.addedOpenNotional
  openInterest : b'.counters.openInterestDelta = b.counters.openInterestDelta
  fills : b'.entries.map BookFill.core = b.entries.map BookFill.core
  live : (b'.queue.livePrices reader).Sublist (b.queue.livePrices reader)

theorem Kept.trans {b b' b'' : LimitOrderbook D} (h : Kept b b') (h' : Kept b' b'') :
    Kept b b'' :=
  ⟨h'.isLiquidation.trans h.isLiquidation, h'.notional.trans h.notional,
    h'.totalQuantity.trans h.totalQuantity, h'.added.trans h.added,
    h'.openInterest.trans h.openInterest, h'.fills.trans h.fills, h'.live.trans h.live⟩

variable {isBuy : Bool} {side : SideOrders D isBuy} {b b' : LimitOrderbook D}

/-- At least as good as every order that can still be matched. -/
def Best {isBuy : Bool} (side : SideOrders D isBuy) (b : LimitOrderbook D) (e : BookFill D) :
    Prop :=
  ∀ x ∈ b.entries, reader.Live x →
    NoBetter side.Sorted isBuy x.order.orderInfo.price e.order.orderInfo.price

/-- Moving the cursors keeps everything; what is selected has not been cancelled, is at
    least as good as all open orders, and was just fetched if nothing of it remains. -/
theorem selectOrder_spec (h : Inv side b) :
    Inv side b.selectOrder ∧ Kept b b.selectOrder ∧
      b.selectOrder.queue.iterator.length ≤ b.queue.iterator.length ∧
      (b.selectOrder.currState = none → b.selectOrder.queue.livePrices reader = []) ∧
      ∀ l, b.selectOrder.currState = some l →
        ∃ e, b.selectOrder.queue.current l = some e ∧ e.isCancelled = false ∧
          Best side b.selectOrder e ∧ (e.order.fillable - e.fillQuantity = 0 →
            b.selectOrder.queue.iterator.length < b.queue.iterator.length) := by
  obtain ⟨lane, q, hsel⟩ : ∃ lane q, b.queue.select reader isBuy = (lane, q) := ⟨_, _, rfl⟩
  obtain ⟨hwf, hadv, hnone, hsome⟩ := Queue.select_spec h.wf hsel
  have hb : b.selectOrder = { b with queue := q, currState := lane } := by
    simp only [selectOrder, h.direction, hsel]
  have hent : q.entries reader = b.entries := hadv.entries_eq (fun _ => rfl)
  rw [hb]
  refine ⟨⟨h.direction, hwf, ?_, ?_, ?_, ?_, ?_⟩, ⟨rfl, rfl, rfl, rfl, rfl, ?_, ?_⟩, ?_, ?_, ?_⟩
  · exact (congrArg (List.map BookFill.order) hent).trans h.orders
  · exact (congrArg (List.map BookFill.order) hadv.transient_eq).trans h.transient
  · intro e he
    exact h.bounds e (hent ▸ he)
  · exact h.total.trans (congrArg (fun l => (l.map BookFill.fillQuantity).sum) hent.symm)
  · intro e he
    exact h.cancelled e (hent ▸ he)
  · exact congrArg (List.map BookFill.core) hent
  · show (q.livePrices reader).Sublist (b.queue.livePrices reader)
    rw [hadv.livePrices_eq]
  · obtain ⟨consumed, hit, -⟩ := hadv.resting
    show q.iterator.length ≤ b.queue.iterator.length
    rw [hit, List.length_append]
    exact Nat.le_add_left _ _
  · intro hlane
    have hdead := hnone hlane
    simpa only [Queue.livePrices, List.map_eq_nil_iff, List.filter_eq_nil_iff,
      decide_eq_true_eq] using hdead
  · intro l hl
    obtain ⟨e, he, -, hbest, hfresh⟩ := hsome l hl
    have hopen : e.isCancelled = false := by
      by_contra hcancelled
      rw [Bool.not_eq_false] at hcancelled
      obtain ⟨⟨o, rfl⟩, -⟩ := hfresh (by rw [reader_remaining, if_pos hcancelled])
      cases hcancelled
    refine ⟨e, he, hopen, hbest, ?_⟩
    intro hzero
    exact (hfresh (by rw [reader_remaining, hopen]; exact hzero)).2

variable {l : Lane} {e : BookFill D}

/-- Cancelling the current order takes it out of the open ones and keeps its fill. -/
theorem cancel_spec (h : Inv side b) (hc : b.queue.current l = some e) :
    Inv side (b.addInvalidOrderToCancelsAndAdvanceToNextOrder l e) ∧
      Kept b (b.addInvalidOrderToCancelsAndAdvanceToNextOrder l e) ∧
      (reader.Live e →
        ((b.addInvalidOrderToCancelsAndAdvanceToNextOrder l e).queue.livePrices
          reader).length < (b.queue.livePrices reader).length) := by
  obtain ⟨pre, post, hent, hent'⟩ := Queue.entries_modify (R := reader) (f := BookFill.cancel) hc
  change b.entries = _ at hent
  have hdead : ¬reader.Live e.cancel := fun hl => (nomatch ((live_iff _).mp hl).1)
  obtain ⟨hsub, hlt⟩ := Queue.livePrices_retire hc hdead
  -- no other order has the hash of the cancelled one
  have hhash : ∀ x ∈ pre ++ post, x.order.orderHash ≠ e.order.orderHash := by
    have hnodup := side.hashes_nodup
    rw [← h.orders, hent, List.map_map, List.map_append, List.map_cons,
      List.nodup_middle, List.nodup_cons, ← List.map_append] at hnodup
    intro x hx heq
    exact hnodup.1 (List.mem_map.mpr ⟨x, hx, heq⟩)
  have hmem : ∀ x, x ∈ pre ++ e.cancel :: post → x = e.cancel ∨ x ∈ pre ++ post := by
    intro x hx
    simp only [List.mem_append, List.mem_cons] at hx ⊢
    tauto
  have hold : ∀ x ∈ pre ++ post, x ∈ b.entries := by
    intro x hx
    rw [hent]
    simp only [List.mem_append, List.mem_cons] at hx ⊢
    tauto
  have he : e ∈ b.entries := by
    rw [hent]
    exact List.mem_append_right _ List.mem_cons_self
  refine ⟨⟨h.direction, h.wf.modify hc rfl rfl, ?_,
    (Queue.map_transient_modify (f := BookFill.cancel) (fun _ => rfl) l).trans h.transient,
    ?_, ?_, ?_⟩,
    ⟨rfl, rfl, rfl, rfl, rfl, ?_, hsub⟩, hlt⟩
  · refine Eq.trans ?_ h.orders
    show ((b.queue.modify _ l).entries reader).map _ = _
    rw [hent', hent]
    simp only [List.map_append, List.map_cons, BookFill.cancel]
  · intro x hx
    rcases hmem x (hent' ▸ hx) with rfl | hx
    · exact h.bounds e he
    · exact h.bounds x (hold x hx)
  · refine h.total.trans ?_
    show _ = (((b.queue.modify _ l).entries reader).map _).sum
    rw [hent', hent]
    simp only [List.map_append, List.map_cons, BookFill.cancel]
  · intro x hx hin
    change x.order.orderHash ∈ (if 0 < e.fillQuantity then b.orderCancelHashes
      else b.orderCancelHashes ++ [e.order.orderHash]) at hin
    rcases hmem x (hent' ▸ hx) with rfl | hx
    · refine ⟨rfl, ?_⟩
      show e.fillQuantity = 0
      by_cases hpos : 0 < e.fillQuantity
      · rw [if_pos hpos] at hin
        exact (h.cancelled e he hin).2
      · exact le_antisymm (not_lt.mp hpos) (h.bounds e he).1
    · refine h.cancelled x (hold x hx) ?_
      by_cases hpos : 0 < e.fillQuantity
      · rwa [if_pos hpos] at hin
      · rw [if_neg hpos, List.mem_append, List.mem_singleton] at hin
        exact hin.resolve_right (hhash x hx)
  · show ((b.queue.modify _ l).entries reader).map _ = _
    rw [hent', hent]
    simp only [List.map_append, List.map_cons, BookFill.core, BookFill.cancel]

/-! ## Peeking -/

variable {E : MatchEnv R D} {opposite : D} {c c' : MatchState R D}

/-- The order a book offers: current, open, best, with its position cached, and within
    the cap unless a liquidation is being matched. -/
structure Offer (E : MatchEnv R D) (opposite : D) {isBuy : Bool} (side : SideOrders D isBuy)
    (b : LimitOrderbook D) (c : MatchState R D) (l : Lane) (e : BookFill D) : Prop where
  state : b.currState = some l
  current : b.queue.current l = some e
  live : reader.Live e
  best : Best side b e
  cached : (c.positionCache e.order.orderInfo.subaccountID).isSome
  cap : b.isLiquidation = false →
    PassesCap E opposite b.counters c (.limit e.order) (e.order.fillable - e.fillQuantity)

/-- The price level of an order. -/
def levelOf (e : BookFill D) : PriceLevel D :=
  ⟨e.order.orderInfo.price, e.order.fillable - e.fillQuantity⟩

/-- What `Peek` returns. -/
structure PeekResult (E : MatchEnv R D) (opposite : D) {isBuy : Bool}
    (side : SideOrders D isBuy) (b : LimitOrderbook D) (c : MatchState R D)
    (r : Option (PriceLevel D) × LimitOrderbook D × MatchState R D) : Prop where
  inv : Inv side r.2.1
  kept : Kept b r.2.1
  state : c.Extends E r.2.2
  none : r.1 = none → r.2.1.queue.livePrices reader = []
  some : ∀ a, r.1 = some a →
    ∃ l e, Offer E opposite side r.2.1 r.2.2 l e ∧ a = levelOf e

theorem PeekResult.step {r : Option (PriceLevel D) × LimitOrderbook D × MatchState R D}
    (hk : Kept b b') (hc : c.Extends E c') (h : PeekResult E opposite side b' c' r) :
    PeekResult E opposite side b c r :=
  ⟨h.inv, hk.trans h.kept, hc.trans h.state, h.none, h.some⟩

/-- The loop stops at the best order that is not skipped. -/
theorem peekLoop_spec (n : ℕ) (h : Inv side b)
    (hn : b.queue.iterator.length + (b.queue.livePrices reader).length < n) :
    PeekResult E opposite side b c (peekLoop E opposite n b c) := by
  induction n generalizing b c with
  | zero => exact absurd hn (Nat.not_lt_zero _)
  | succ n ih =>
    obtain ⟨hinv, hkept, hiter, hnone, hsome⟩ := selectOrder_spec h
    have hlen := hkept.live.length_le
    cases hcs : b.selectOrder.currState with
    | none =>
      simp only [peekLoop, hcs]
      exact ⟨hinv, hkept, MatchState.Extends.refl E c, fun _ => hnone hcs, fun a ha => (nomatch ha)⟩
    | some l =>
      obtain ⟨e, he, hopen, hbest, hshort⟩ := hsome l hcs
      simp only [peekLoop, hcs, he]
      obtain ⟨hext, hcached, hcap⟩ := checkCurrOrder_spec E opposite b.selectOrder l e c
      set check := b.selectOrder.checkCurrOrder E opposite l e c
      set b₂ := b.selectOrder.withCached check.cachedAddedOpenNotional with hb₂
      have hinv₂ : Inv side b₂ := ⟨hinv.direction, hinv.wf, hinv.orders,
        hinv.transient, hinv.bounds, hinv.total, hinv.cancelled⟩
      have hkept₂ : Kept b b₂ := hkept.trans ⟨rfl, rfl, rfl, rfl, rfl, rfl, List.Sublist.refl _⟩
      by_cases hadm : check.admitted = true
      · rw [if_pos hadm]
        by_cases hzero : e.order.fillable - e.fillQuantity = 0
        · -- nothing remains of a freshly fetched order
          rw [if_pos hzero]
          have hlt := hshort hzero
          have hinv₃ : Inv side { b₂ with currState := none } :=
            ⟨hinv₂.direction, hinv₂.wf, hinv₂.orders, hinv₂.transient, hinv₂.bounds,
              hinv₂.total, hinv₂.cancelled⟩
          have hkept₃ : Kept b { b₂ with currState := none } := hkept₂.trans
            ⟨rfl, rfl, rfl, rfl, rfl, rfl, List.Sublist.refl _⟩
          refine PeekResult.step hkept₃ hext (ih hinv₃ ?_)
          show b.selectOrder.queue.iterator.length +
            (b.selectOrder.queue.livePrices reader).length < n
          omega
        · rw [if_neg hzero]
          refine ⟨hinv₂, hkept₂, hext, fun hnone => (nomatch hnone), ?_⟩
          intro a ha
          refine ⟨l, e, ⟨hcs, he, (live_iff e).mpr ⟨hopen, hzero⟩, hbest, hcached, ?_⟩,
            (Option.some.inj ha).symm⟩
          exact hcap hadm
      · -- the order is cancelled: one open order less, unless it was empty already
        rw [if_neg hadm]
        obtain ⟨hinv₃, hkept₃, hlt₃⟩ := cancel_spec (b := b₂) hinv₂ he
        refine PeekResult.step (hkept₂.trans hkept₃) hext (ih hinv₃ ?_)
        have hlen₃ := hkept₃.live.length_le
        have hiter₃ : (b₂.addInvalidOrderToCancelsAndAdvanceToNextOrder l
            e).queue.iterator = b.selectOrder.queue.iterator := Queue.iterator_modify
        rw [hiter₃]
        change _ ≤ (b.selectOrder.queue.livePrices reader).length at hlen₃
        change _ → _ < (b.selectOrder.queue.livePrices reader).length at hlt₃
        by_cases hzero : e.order.fillable - e.fillQuantity = 0
        · have hlt := hshort hzero
          omega
        · have hlt := hlt₃ ((live_iff e).mpr ⟨hopen, hzero⟩)
          omega

/-- **PEEK** finds the best open order that passes its checks, and changes nothing but
    which orders are open. -/
theorem peek_spec (h : Inv side b) : PeekResult E opposite side b c (b.peek E opposite c) := by
  refine peekLoop_spec _ h ?_
  have hlen := Queue.length_livePrices_le (R := reader) (q := b.queue)
  omega

/-! ## Filling -/

theorem fill_eq (hl : b.currState = some l) (hc : b.queue.current l = some e)
    (E : MatchEnv R D) (c : MatchState R D) (q : D) :
    b.fill E c q =
      ({ b with
         notional := b.notional + mul q e.order.orderInfo.price
         totalQuantity := b.totalQuantity + q
         queue := b.queue.modify (fun e => e.add q) l
         counters := (updateNotionalCapValuesAfterFill E b.counters c (.limit e.order)
           (getCurrOrderTradeFeeRate E l) q).1
         currState := if e.fillQuantity + q = e.order.fillable then none else some l },
       (updateNotionalCapValuesAfterFill E b.counters c (.limit e.order)
         (getCurrOrderTradeFeeRate E l) q).2) := by
  simp only [fill, hl, hc]

/-- The book's own part of a fill: one order is filled further, all others stay. -/
theorem fill_entries (hl : b.currState = some l) (hc : b.queue.current l = some e)
    (E : MatchEnv R D) (c : MatchState R D) (q : D) :
    ∃ pre post, b.entries = pre ++ e :: post ∧
      (b.fill E c q).1.entries = pre ++ e.add q :: post := by
  obtain ⟨pre, post, hent, hent'⟩ :=
    Queue.entries_modify (R := reader) (f := fun e => BookFill.add e q) hc
  exact ⟨pre, post, hent, by rw [fill_eq hl hc]; exact hent'⟩

theorem Inv.order_mem (h : Inv side b) (he : e ∈ b.entries) :
    e.order ∈ side.resting ++ side.transient := by
  rw [← h.orders]
  exact List.mem_map_of_mem he

theorem current_mem (hc : b.queue.current l = some e) : e ∈ b.entries := by
  obtain ⟨pre, post, hent, -⟩ := Queue.entries_modify (R := reader) (f := id) hc
  rw [entries, hent]
  exact List.mem_append_right _ List.mem_cons_self

theorem Inv.remaining_pos (h : Inv side b) (hc : b.queue.current l = some e)
    (hlive : reader.Live e) : 0 < e.order.fillable - e.fillQuantity :=
  lt_of_le_of_ne (sub_nonneg.mpr (h.bounds e (current_mem hc)).2)
    (Ne.symm ((live_iff e).mp hlive).2)

variable {q : D}

theorem fill_inv (h : Inv side b) (hl : b.currState = some l) (hc : b.queue.current l = some e)
    (hlive : reader.Live e) (hq : 0 < q) (hle : q ≤ e.order.fillable - e.fillQuantity)
    (E : MatchEnv R D) (c : MatchState R D) : Inv side (b.fill E c q).1 := by
  obtain ⟨pre, post, hent, hent'⟩ := fill_entries hl hc E c q
  have he := current_mem hc
  have hmem : ∀ x ∈ (b.fill E c q).1.entries, x = e.add q ∨ x ∈ b.entries := by
    intro x hx
    rw [hent'] at hx
    rw [hent]
    exact mem_replace pre hx
  refine ⟨?_, ?_, ?_, ?_, ?_, ?_, ?_⟩
  · rw [fill_eq hl hc]; exact h.direction
  · rw [fill_eq hl hc]; exact h.wf.modify hc rfl rfl
  · refine Eq.trans ?_ h.orders
    rw [hent, hent']
    simp only [List.map_append, List.map_cons, BookFill.add]
  · rw [fill_eq hl hc]
    exact (Queue.map_transient_modify (f := fun e => BookFill.add e q) (fun _ => rfl)
      l).trans h.transient
  · intro x hx
    rcases hmem x hx with rfl | hx
    · refine ⟨add_nonneg (h.bounds e he).1 hq.le, ?_⟩
      exact le_sub_iff_add_le'.mp hle
    · exact h.bounds x hx
  · have htotal : (b.fill E c q).1.totalQuantity = b.totalQuantity + q := by
      rw [fill_eq hl hc]
    rw [htotal, h.total, hent, hent']
    exact (sum_map_replace pre rfl).symm
  · intro x hx hin
    have hhashes : (b.fill E c q).1.orderCancelHashes = b.orderCancelHashes := by
      rw [fill_eq hl hc]
    rw [hhashes] at hin
    rcases hmem x hx with rfl | hx
    · -- an open order has not been cancelled
      have hcancelled := (h.cancelled e he hin).1
      rw [((live_iff e).mp hlive).1] at hcancelled
      exact nomatch hcancelled
    · exact h.cancelled x hx hin

theorem fill_filled (h : Inv side b) (hl : b.currState = some l)
    (hc : b.queue.current l = some e) (hv : c.Valid)
    (hcached : (c.positionCache e.order.orderInfo.subaccountID).isSome) (hq : 0 ≤ q)
    (E : MatchEnv R D) :
    Filled E b.counters c e.order.orderInfo.subaccountID (signedFill isBuy q)
      (b.fill E c q).1.counters (b.fill E c q).2 := by
  have hspec := updateNotionalCapValuesAfterFill_spec E b.counters hv (.limit e.order)
    hcached (getCurrOrderTradeFeeRate E l) hq
  have hdirection : (IDerivativeOrder.limit e.order).orderType.isBuy = isBuy :=
    side.direction e.order (h.order_mem (current_mem hc))
  rw [hdirection] at hspec
  rw [fill_eq hl hc]
  exact hspec

/-! ## The book as a side of the matching loop -/

/-- What the matching loop sees of a book. -/
def view : View (LimitOrderbook D) D where
  live b := b.queue.livePrices reader
  filled b := (b.entries.filter (fun e => 0 < e.fillQuantity)).map
    (fun e => e.order.orderInfo.price)
  total b := b.totalQuantity
  current b a := ∃ l e, b.currState = some l ∧ b.queue.current l = some e ∧
    reader.Live e ∧ a = levelOf e

theorem Kept.filled (h : Kept b b') : view.filled b' = view.filled b := by
  have hcore : ∀ l : List (BookFill D),
      (l.filter (fun e => 0 < e.fillQuantity)).map (fun e => e.order.orderInfo.price) =
        ((l.map BookFill.core).filter (fun p => 0 < p.2)).map (fun p => p.1.orderInfo.price) := by
    intro l
    rw [List.filter_map, List.map_map]
    rfl
  simp only [view, hcore, h.fills]

/-- **A DERIVATIVE BOOK IS A SIDE** of the loop, in price order if its orders are read so,
    whatever the other side has added and whatever the shared state holds. -/
theorem sideSpec (E : MatchEnv R D) (side : SideOrders D isBuy) (i : D × MatchState R D) :
    SideSpec (Inv side) (NoBetter side.Sorted isBuy)
      (fun b => ((b.peek E i.1 i.2).1, (b.peek E i.1 i.2).2.1))
      (fun b q => (b.fill E i.2 q).1) view View.blank where
  refl := NoBetter.refl isBuy
  trans _ _ _ := NoBetter.trans
  peek_inv b h := (peek_spec h).inv
  peek_other b _ := View.same_blank _ _
  peek_live b h := (peek_spec h).kept.live
  peek_filled b h := by
    rw [(peek_spec h).kept.filled]
    exact List.Subset.refl _
  peek_total b h := (peek_spec h).kept.totalQuantity
  peek_none b h hnone := (peek_spec h).none hnone
  peek_some b a h ha := by
    obtain ⟨l, e, offer, rfl⟩ := (peek_spec h).some a ha
    refine ⟨⟨l, e, offer.state, offer.current, offer.live, rfl⟩,
      (peek_spec h).inv.remaining_pos offer.current offer.live, ?_, ?_⟩
    · exact List.mem_map_of_mem (f := reader.price)
        (List.mem_filter.mpr ⟨current_mem offer.current, decide_eq_true offer.live⟩)
    · intro p hp
      obtain ⟨x, hx, rfl⟩ := List.mem_map.mp hp
      obtain ⟨hmem, hlive⟩ := List.mem_filter.mp hx
      exact offer.best x hmem (of_decide_eq_true hlive)
  fill_inv b a q h ha hq hle := by
    obtain ⟨l, e, hl, hc, hlive, rfl⟩ := ha
    exact fill_inv h hl hc hlive hq hle E i.2
  fill_other b _ _ _ _ _ _ := View.same_blank _ _
  fill_live b a q h ha _ _ := by
    obtain ⟨l, e, hl, hc, hlive, -⟩ := ha
    obtain ⟨pre, post, hent, hent'⟩ := fill_entries hl hc E i.2 q
    rw [entries] at hent hent'
    simp only [view, Queue.livePrices, hent, hent']
    exact prices_replace_sublist pre rfl hlive
  fill_done b a q h ha _ hq := by
    obtain ⟨l, e, hl, hc, hlive, rfl⟩ := ha
    obtain ⟨pre, post, hent, hent'⟩ := fill_entries hl hc E i.2 q
    rw [entries] at hent hent'
    simp only [view, Queue.livePrices, hent, hent']
    refine length_prices_replace_lt pre hlive (fun hopen => ((live_iff _).mp hopen).2 ?_)
    show e.order.fillable - (e.fillQuantity + q) = 0
    rw [hq, levelOf, sub_eq_zero, add_sub_cancel]
  fill_filled b a q h ha _ _ := by
    obtain ⟨l, e, hl, hc, -, rfl⟩ := ha
    obtain ⟨pre, post, hent, hent'⟩ := fill_entries hl hc E i.2 q
    simp only [view, hent, hent']
    exact prices_replace_subset pre rfl
  fill_total b a q h ha _ _ := by
    obtain ⟨l, e, hl, hc, -, -⟩ := ha
    show (b.fill E i.2 q).1.totalQuantity = b.totalQuantity + q
    rw [fill_eq hl hc]

end LimitOrderbook

/-! ## Books before matching -/

section Initial

variable {isBuy : Bool} (side : SideOrders D isBuy) (isLiquidation : Bool)

theorem SideOrders.entries_book : (side.book isLiquidation).entries =
    (side.resting ++ side.transient).map (fun o => ⟨o, 0, false⟩) := by
  rw [List.map_append]
  rfl

theorem SideOrders.book_inv : LimitOrderbook.Inv side (side.book isLiquidation) := by
  have hentry : ∀ e ∈ (side.book isLiquidation).entries,
      e.fillQuantity = 0 ∧ e.order ∈ side.resting ++ side.transient := by
    intro e he
    rw [side.entries_book] at he
    obtain ⟨o, ho, rfl⟩ := List.mem_map.mp he
    exact ⟨rfl, ho⟩
  refine ⟨rfl, ⟨?_, ?_, ?_, ?_, ?_⟩, ?_, ?_, ?_, ?_, ?_⟩
  · exact List.forall_mem_nil _
  · exact List.forall_mem_nil _
  · exact List.forall_mem_nil _
  · exact List.pairwise_map.mpr (pairwise_noBetter And.left)
  · exact List.pairwise_map.mpr (pairwise_noBetter And.right)
  · rw [side.entries_book, List.map_map]
    exact List.map_id _
  · show ([] ++ side.transient.map _).map _ = _
    rw [List.nil_append, List.map_map]
    exact List.map_id _
  · intro e he
    obtain ⟨h0, ho⟩ := hentry e he
    rw [h0]
    exact ⟨le_refl 0, side.fillable_nonneg _ ho⟩
  · symm
    refine List.sum_eq_zero ?_
    intro x hx
    obtain ⟨e, he, rfl⟩ := List.mem_map.mp hx
    exact (hentry e he).1
  · intro e _ hin
    exact nomatch hin

theorem SideOrders.filled_book :
    LimitOrderbook.view.filled (side.book isLiquidation) = [] := by
  simp only [LimitOrderbook.view, side.entries_book, List.map_eq_nil_iff,
    List.filter_eq_nil_iff, decide_eq_true_eq]
  intro e he
  obtain ⟨o, -, rfl⟩ := List.mem_map.mp he
  exact lt_irrefl 0

end Initial

end ExchangeDerivativeBook
