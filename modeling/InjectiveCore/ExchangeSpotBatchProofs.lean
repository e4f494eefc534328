import InjectiveCore.ExchangeSpotBookProofs
import InjectiveCore.ExchangeSpotHoldProofs

/-!
# Spot batches — nothing is created in either denom

A batch is matched first and settled afterwards: the executors turn every fill into an
expansion and book all of them. Two executors are modelled, the auction over limit
orders, which settles everything at one clearing price, and market orders against
resting limit orders, which settles the limit orders at their own prices and the market
orders at the volume-weighted average of those.

- `baseFlow` and `quoteFlow` are what an expansion adds to the sum of all deposits.
  Each builder has its flow lemma: a buy moves `fillQuantity` in and the notional out, a
  sell the other way, whatever the fees, discounts and recipients are.
- The sums cancel because the matching loop fills both sides alike, and because the
  average price times the filled quantity is the notional of the limit orders.
-/

namespace ExchangeSpotBatch

open DecArith DeltaLedger MatchLoop TwoQueue ExchangeFees ExchangeFba ExchangeSpotFill
open ExchangeSpotBook

variable {D : Type} [DecArith D]

/-! ## Market order books -/

/-- A market order with its fill quantity. -/
structure SpotMarketFill (D : Type) where
  order : SpotMarketOrder D
  fillQuantity : D
  deriving DecidableEq, Repr

/-- The market order with more of it filled. -/
def SpotMarketFill.add (e : SpotMarketFill D) (fillQuantity : D) : SpotMarketFill D :=
  { e with fillQuantity := e.fillQuantity + fillQuantity }

/-- How the book reads its orders: nothing is passed over but full orders. -/
def marketReader : Reader (SpotMarketOrder D) (SpotMarketFill D) D where
  load o := ⟨o, 0⟩
  remaining e := e.order.orderInfo.quantity - e.fillQuantity
  price e := e.order.orderInfo.price
  skip _ := false

/-- `SpotMarketOrderbook`, with its orders split at `orderIdx`. -/
structure SpotMarketOrderbook (D : Type) where
  notional : D
  totalQuantity : D
  passed : List (SpotMarketFill D)
  pending : List (SpotMarketFill D)
  deriving DecidableEq, Repr

namespace SpotMarketOrderbook

/-- `NewSpotMarketOrderbook`. -/
def newSpotMarketOrderbook (spotMarketOrders : List (SpotMarketOrder D)) :
    SpotMarketOrderbook D :=
  { notional := 0, totalQuantity := 0, passed := []
    pending := spotMarketOrders.map (fun o => ⟨o, 0⟩) }

/-- The orders with `GetOrderbookFillQuantities`. -/
def fills (b : SpotMarketOrderbook D) : List (SpotMarketFill D) := b.passed ++ b.pending

/-- `Peek`. -/
def peek (b : SpotMarketOrderbook D) : Option (PriceLevel D) × SpotMarketOrderbook D :=
  ((dropDone marketReader b.passed b.pending).2.head?.map (fun e =>
      ⟨e.order.orderInfo.price, e.order.orderInfo.quantity - e.fillQuantity⟩),
    { b with passed := (dropDone marketReader b.passed b.pending).1
             pending := (dropDone marketReader b.passed b.pending).2 })

/-- `Fill`. -/
def fill (b : SpotMarketOrderbook D) (fillQuantity : D) : SpotMarketOrderbook D :=
  match b.pending with
  | [] => b
  | e :: rest =>
    { b with
      pending := e.add fillQuantity :: rest
      notional := b.notional + mul fillQuantity e.order.orderInfo.price
      totalQuantity := b.totalQuantity + fillQuantity }

/-- Only full orders are passed, no order is filled beyond its quantity, and the total is
    the sum of the fills. -/
structure Inv (b : SpotMarketOrderbook D) : Prop where
  passed : ∀ e ∈ b.passed, ¬marketReader.Live e
  bounds : ∀ e ∈ b.fills, 0 ≤ e.fillQuantity ∧ e.fillQuantity ≤ e.order.orderInfo.quantity
  total : b.totalQuantity = (b.fills.map SpotMarketFill.fillQuantity).sum

/-- What the matching loop sees of a market order book. -/
def view : View (SpotMarketOrderbook D) D where
  live b := (b.fills.filter (fun e => marketReader.Live e)).map
    (fun e => e.order.orderInfo.price)
  filled b := (b.fills.filter (fun e => 0 < e.fillQuantity)).map
    (fun e => e.order.orderInfo.price)
  total b := b.totalQuantity
  current b a := ∃ c rest, b.pending = c :: rest ∧ marketReader.Live c ∧
    a = ⟨c.order.orderInfo.price, c.order.orderInfo.quantity - c.fillQuantity⟩

theorem peek_fills (b : SpotMarketOrderbook D) : b.peek.2.fills = b.fills := by
  obtain ⟨dropped, hp, hd, -, -⟩ := Queue.dropDone_spec (R := marketReader) b.passed b.pending
  show (dropDone marketReader b.passed b.pending).1 ++
    (dropDone marketReader b.passed b.pending).2 = b.passed ++ b.pending
  rw [hd, List.append_assoc, ← hp]

variable {b : SpotMarketOrderbook D}

theorem peek_inv (h : Inv b) : Inv b.peek.2 := by
  obtain ⟨dropped, -, hd, hdead, -⟩ := Queue.dropDone_spec (R := marketReader) b.passed b.pending
  refine ⟨?_, ?_, ?_⟩
  · show ∀ e ∈ (dropDone marketReader b.passed b.pending).1, _
    rw [hd]
    exact List.forall_mem_append.mpr ⟨h.passed, hdead⟩
  · rw [peek_fills]; exact h.bounds
  · rw [peek_fills]; exact h.total

theorem peek_none (h : Inv b) (hnone : b.peek.1 = none) :
    ∀ e ∈ b.peek.2.fills, ¬marketReader.Live e := by
  have hnil : b.peek.2.pending = [] := by
    rw [peek, Option.map_eq_none_iff, List.head?_eq_none_iff] at hnone
    exact hnone
  intro e he
  rw [fills, hnil, List.append_nil] at he
  exact (peek_inv h).passed e he

theorem peek_some {a : PriceLevel D} (ha : b.peek.1 = some a) : view.current b.peek.2 a := by
  obtain ⟨-, -, -, -, hlive⟩ := Queue.dropDone_spec (R := marketReader) b.passed b.pending
  obtain ⟨c, hc, rfl⟩ := Option.map_eq_some_iff.mp ha
  obtain ⟨rest, hrest⟩ := List.head?_eq_some_iff.mp hc
  exact ⟨c, rest, hrest, hlive c hc, rfl⟩

theorem fill_eq {c : SpotMarketFill D} {rest : List (SpotMarketFill D)}
    (hc : b.pending = c :: rest) (q : D) :
    b.fill q =
      { b with
        pending := c.add q :: rest
        notional := b.notional + mul q c.order.orderInfo.price
        totalQuantity := b.totalQuantity + q } := by
  simp only [fill, hc]

theorem fill_inv (h : Inv b) {c : SpotMarketFill D} {rest : List (SpotMarketFill D)}
    (hc : b.pending = c :: rest) {q : D} (hq : 0 < q)
    (hle : q ≤ c.order.orderInfo.quantity - c.fillQuantity) : Inv (b.fill q) := by
  have hfills : (b.fill q).fills = b.passed ++ c.add q :: rest := by rw [fill_eq hc]; rfl
  have hold : b.fills = b.passed ++ c :: rest := by rw [fills, hc]
  have hcb := h.bounds c (by rw [hold]; exact List.mem_append_right _ List.mem_cons_self)
  refine ⟨?_, ?_, ?_⟩
  · rw [fill_eq hc]; exact h.passed
  · rw [hfills]
    exact forall_mem_replace b.passed (hold ▸ h.bounds)
      ⟨add_nonneg hcb.1 hq.le, le_sub_iff_add_le'.mp hle⟩
  · rw [hfills, fill_eq hc]
    show b.totalQuantity + q = _
    rw [h.total, hold]
    exact (sum_map_replace b.passed rfl).symm

theorem length_live_le (b : SpotMarketOrderbook D) : (view.live b).length ≤ b.fills.length := by
  rw [view, List.length_map]
  exact List.length_filter_le _ _

/-- A market order book is a side of the loop; its orders come in no order of price. -/
theorem sideSpec :
    SideSpec (Inv (D := D)) (fun _ _ => True) peek fill view View.blank where
  refl _ := trivial
  trans _ _ _ _ _ := trivial
  peek_inv _ h := peek_inv h
  peek_other _ _ := View.same_blank _ _
  peek_live b _ := by
    simp only [view, peek_fills]
    exact List.Sublist.refl _
  peek_filled b _ := by
    simp only [view, peek_fills]
    exact List.Subset.refl _
  peek_total _ _ := rfl
  peek_none b h hnone := by
    simp only [view, List.map_eq_nil_iff, List.filter_eq_nil_iff, decide_eq_true_eq]
    exact peek_none h hnone
  peek_some b a h ha := by
    obtain ⟨c, rest, hc, hlive, rfl⟩ := peek_some ha
    have hmem : c ∈ b.peek.2.fills := by
      rw [fills, hc]; exact List.mem_append_right _ List.mem_cons_self
    refine ⟨⟨c, rest, hc, hlive, rfl⟩, ?_, ?_, fun _ _ => trivial⟩
    · exact lt_of_le_of_ne (sub_nonneg.mpr ((peek_inv h).bounds c hmem).2) (Ne.symm hlive.1)
    · exact List.mem_map.mpr ⟨c, List.mem_filter.mpr ⟨hmem, decide_eq_true hlive⟩, rfl⟩
  fill_inv b a q h ha hq hle := by
    obtain ⟨c, rest, hc, -, rfl⟩ := ha
    exact fill_inv h hc hq hle
  fill_other _ _ _ _ _ _ _ := View.same_blank _ _
  fill_live b a q _ ha _ _ := by
    obtain ⟨c, rest, hc, hlive, -⟩ := ha
    simp only [view, fills, fill_eq hc, hc]
    exact prices_replace_sublist _ rfl hlive
  fill_done b a q _ ha _ hq := by
    obtain ⟨c, rest, hc, hlive, rfl⟩ := ha
    simp only [view, fills, fill_eq hc, hc]
    refine length_prices_replace_lt _ hlive (fun hopen => hopen.1 ?_)
    show c.order.orderInfo.quantity - (c.fillQuantity + q) = 0
    rw [hq, sub_eq_zero, add_sub_cancel]
  fill_filled b a q _ ha _ _ := by
    obtain ⟨c, rest, hc, -, rfl⟩ := ha
    simp only [view, fills, fill_eq hc, hc]
    exact prices_replace_subset _ rfl
  fill_total b a q _ ha _ _ := by
    obtain ⟨c, rest, hc, -, -⟩ := ha
    show (b.fill q).totalQuantity = b.totalQuantity + q
    rw [fill_eq hc]

end SpotMarketOrderbook

/-! ## Settlement of the fills -/

/-- `SpotLimitOrderDelta`. -/
structure SpotLimitOrderDelta (D : Type) where
  order : SpotLimitOrder D
  fillQuantity : D
  deriving DecidableEq, Repr

/-- What a batch persists: the deposit deltas, the filled limit orders and the new
    resting orders. -/
structure SpotBatchExecutionData (D : Type) where
  depositDeltas : SpotDepositDeltas D
  limitOrderFilledDeltas : List (SpotLimitOrderDelta D)
  newBuyOrders : List (SpotLimitOrder D)
  newSellOrders : List (SpotLimitOrder D)

/-- Book a list of expansions. -/
def applyExpansions (market : SpotMarket D) (expansions : List (SpotOrderStateExpansion D))
    (deltas : SpotDepositDeltas D) : SpotDepositDeltas D :=
  expansions.foldl (fun d e => e.updateFromDepositDeltas market d) deltas

/-- No deposit deltas. -/
def emptyDeltas : SpotDepositDeltas D := ⟨.empty, .empty⟩

/-- The limit orders with a fill among the expansions. -/
def filledDeltas (expansions : List (SpotOrderStateExpansion D)) :
    List (SpotLimitOrderDelta D) :=
  expansions.filterMap fun e =>
    if e.baseChangeAmount = 0 then none
    else e.limitOrder.map (fun o => ⟨o, e.limitOrderFillQuantity⟩)

/-- `ProcessRestingSpotLimitOrderExpansions`: at the clearing price, or each at its own
    price when there is none. -/
def processRestingSpotLimitOrderExpansions (env : SpotFillEnv D)
    (fills : List (SpotFill D)) (isLimitBuy : Bool) (clearingPrice : Option D) :
    List (SpotOrderStateExpansion D) :=
  fills.map fun f =>
    let fillPrice := clearingPrice.getD f.order.orderInfo.price
    if isLimitBuy then
      getRestingSpotLimitBuyStateExpansion env f.order f.fillQuantity fillPrice
    else
      getSpotLimitSellStateExpansion env f.order true f.fillQuantity fillPrice
        env.market.makerFeeRate

/-- The transient orders that stay in the book. -/
def newRestingOrders (fills : List (SpotFill D)) : List (SpotLimitOrder D) :=
  (fills.map (fun f => f.order.filledBy f.fillQuantity)).filter (fun o => 0 < o.fillable)

/-- `ProcessTransientSpotLimitBuyOrderbookMatchingResults`. -/
def processTransientSpotLimitBuys (env : SpotFillEnv D) (fills : List (SpotFill D))
    (clearingPrice : D) : List (SpotOrderStateExpansion D) :=
  fills.map fun f =>
    getTransientSpotLimitBuyStateExpansion env f.order clearingPrice f.fillQuantity

/-- `ProcessTransientSpotLimitSellOrderbookMatchingResults`. -/
def processTransientSpotLimitSells (env : SpotFillEnv D) (fills : List (SpotFill D))
    (clearingPrice : D) : List (SpotOrderStateExpansion D) :=
  fills.map fun f =>
    getSpotLimitSellStateExpansion env f.order false f.fillQuantity clearingPrice
      env.market.takerFeeRate

/-- The fills of a book, none of a nil book. -/
def restingFills (b : Option (SpotLimitOrderbook D)) : List (SpotFill D) :=
  (b.map SpotLimitOrderbook.getRestingOrderbookFills).getD []

/-- The transient fills of a book, none of a nil book. -/
def transientFills (b : Option (SpotLimitOrderbook D)) : List (SpotFill D) :=
  (b.map SpotLimitOrderbook.getTransientOrderbookFills).getD []

/-- The expansions of resting orders of a matched auction. -/
def restingExpansions (env : SpotFillEnv D) (clearingPrice : D)
    (buy sell : Option (SpotLimitOrderbook D)) : List (SpotOrderStateExpansion D) :=
  processRestingSpotLimitOrderExpansions env (restingFills buy) true (some clearingPrice) ++
    processRestingSpotLimitOrderExpansions env (restingFills sell) false
      (some clearingPrice)

/-- The expansions of transient orders of a matched auction. -/
def transientExpansions (env : SpotFillEnv D) (clearingPrice : D)
    (buy sell : Option (SpotLimitOrderbook D)) : List (SpotOrderStateExpansion D) :=
  processTransientSpotLimitBuys env (transientFills buy) clearingPrice ++
    processTransientSpotLimitSells env (transientFills sell) clearingPrice

/-- `SpotBatchAuctionExecutor.processMatchResult`. -/
def processMatchResult (env : SpotFillEnv D) (matchResult : MatchResult D)
    (buy sell : Option (SpotLimitOrderbook D)) : SpotBatchExecutionData D :=
  let resting := restingExpansions env matchResult.clearingPrice buy sell
  let transient := transientExpansions env matchResult.clearingPrice buy sell
  { depositDeltas := applyExpansions env.market (resting ++ transient) emptyDeltas
    limitOrderFilledDeltas := filledDeltas resting
    newBuyOrders := newRestingOrders (transientFills buy)
    newSellOrders := newRestingOrders (transientFills sell) }

/-- `filterPausedSpotLimitOrders`. -/
def filterPausedSpotLimitOrders (isPaused : Hash → Bool)
    (orders : List (SpotLimitOrder D)) : List (SpotLimitOrder D) :=
  orders.filter (fun o => !isPaused o.orderInfo.subaccountID)

/-- `SpotBatchAuctionExecutor.Execute`. -/
def executeAuction (env : SpotFillEnv D) (isPaused : Hash → Bool)
    (strategy : SpotClearingPriceStrategy D)
    (restingBuys transientBuys restingSells transientSells : List (SpotLimitOrder D)) :
    Option (SpotBatchExecutionData D) :=
  let buy := SpotLimitOrderbook.newSpotLimitOrderbook restingBuys
    (filterPausedSpotLimitOrders isPaused transientBuys) true
  let sell := SpotLimitOrderbook.newSpotLimitOrderbook restingSells
    (filterPausedSpotLimitOrders isPaused transientSells) false
  match buy, sell with
  | some b, some s =>
    (matchLimitOrderbooks isPaused strategy.calculate b s).map fun r =>
      processMatchResult env r.1 (some r.2.1) (some r.2.2)
  | _, _ => some (processMatchResult env emptyMatchResult buy sell)

/-- `ProcessSpotMarketOrderStateExpansions`. -/
def processSpotMarketOrderStateExpansions (env : SpotFillEnv D) (isMarketBuy : Bool)
    (fills : List (SpotMarketFill D)) (clearingPrice : Option D) (tradeFeeRate : D) :
    List (SpotOrderStateExpansion D) :=
  fills.map fun f =>
    getSpotMarketOrderStateExpansion env f.order isMarketBuy f.fillQuantity clearingPrice
      tradeFeeRate

/-- `GetSpotMarketOrderBatchExecutionData`. -/
def getSpotMarketOrderBatchExecutionData (market : SpotMarket D)
    (limitExpansions marketExpansions : List (SpotOrderStateExpansion D)) :
    SpotBatchExecutionData D :=
  { depositDeltas := applyExpansions market (marketExpansions ++ limitExpansions) emptyDeltas
    limitOrderFilledDeltas := filledDeltas limitExpansions
    newBuyOrders := []
    newSellOrders := [] }

/-- `MatchSpotOrderbooks`, with the market orders on the buy or on the sell side. -/
def matchSpotOrderbooks (isPaused : Hash → Bool) (isMarketBuy : Bool)
    (market : SpotMarketOrderbook D) (limit : SpotLimitOrderbook D) :
    Option (SpotMarketOrderbook D × SpotLimitOrderbook D) :=
  let fuel := market.fills.length + (limit.entries isPaused).length + 1
  if isMarketBuy then
    ((Sides.pair SpotMarketOrderbook.peek SpotMarketOrderbook.fill
      (SpotLimitOrderbook.peek isPaused) SpotLimitOrderbook.fill pricesCross).run fuel
        (market, limit)).map (fun r => r.2)
  else
    ((Sides.pair (SpotLimitOrderbook.peek isPaused) SpotLimitOrderbook.fill
      SpotMarketOrderbook.peek SpotMarketOrderbook.fill pricesCross).run fuel
        (limit, market)).map (fun r => (r.2.2, r.2.1))

/-- `SpotMarketOrderExecutor.Execute`, for the taker rate of the market or that of an
    atomic order. The clearing price is the average price of the limit orders. -/
def executeMarketOrders (env : SpotFillEnv D) (isPaused : Hash → Bool) (isMarketBuy : Bool)
    (takerFeeRate : D) (marketOrders : List (SpotMarketOrder D))
    (restingOrders : List (SpotLimitOrder D)) : Option (SpotBatchExecutionData D) :=
  let marketOrders :=
    marketOrders.filter (fun o => !isPaused o.orderInfo.subaccountID)
  let market := SpotMarketOrderbook.newSpotMarketOrderbook marketOrders
  if marketOrders.isEmpty then some (getSpotMarketOrderBatchExecutionData env.market [] [])
  else match SpotLimitOrderbook.newSpotLimitOrderbook restingOrders [] (!isMarketBuy) with
  | none =>
    some (getSpotMarketOrderBatchExecutionData env.market []
      (processSpotMarketOrderStateExpansions env isMarketBuy market.fills none
        takerFeeRate))
  | some limit =>
    (matchSpotOrderbooks isPaused isMarketBuy market limit).map fun r =>
      let clearingQuantity := r.2.totalQuantity
      let clearingPrice :=
        if 0 < clearingQuantity then some (quo r.2.notional clearingQuantity) else none
      getSpotMarketOrderBatchExecutionData env.market
        (processRestingSpotLimitOrderExpansions env r.2.getRestingOrderbookFills
          (!isMarketBuy) none)
        (processSpotMarketOrderStateExpansions env isMarketBuy r.1.fills clearingPrice
          takerFeeRate)

/-! ## What an expansion adds to the sum of all deposits -/

/-- In the quote denom the trader, the fee recipient and the auction are touched. -/
def quoteFlow (e : SpotOrderStateExpansion D) : D :=
  e.quoteChangeAmount + e.feeRecipientReward + e.auctionFeeReward

theorem applyExpansions_base (market : SpotMarket D)
    (expansions : List (SpotOrderStateExpansion D)) (deltas : SpotDepositDeltas D) :
    DepositDeltas.totalBalance (applyExpansions market expansions deltas).base =
      DepositDeltas.totalBalance deltas.base +
        toChainFormat (expansions.map (fun e => e.baseChangeAmount)).sum market.baseDecimals := by
  induction expansions generalizing deltas with
  | nil => simp [applyExpansions]
  | cons e rest ih =>
    have hrest := ih (e.updateFromDepositDeltas market deltas)
    simp only [applyExpansions, List.foldl_cons] at hrest ⊢
    rw [hrest, List.map_cons, List.sum_cons, toChainFormat_add]
    simp only [SpotOrderStateExpansion.updateFromDepositDeltas, totalBalance_applyDelta,
      SpotOrderStateExpansion.traderBaseDepositDelta]
    abel

theorem applyExpansions_quote (market : SpotMarket D)
    (expansions : List (SpotOrderStateExpansion D)) (deltas : SpotDepositDeltas D) :
    DepositDeltas.totalBalance (applyExpansions market expansions deltas).quote =
      DepositDeltas.totalBalance deltas.quote +
        toChainFormat (expansions.map quoteFlow).sum market.quoteDecimals := by
  induction expansions generalizing deltas with
  | nil => simp [applyExpansions]
  | cons e rest ih =>
    have hrest := ih (e.updateFromDepositDeltas market deltas)
    simp only [applyExpansions, List.foldl_cons] at hrest ⊢
    rw [hrest, List.map_cons, List.sum_cons, toChainFormat_add, quoteFlow,
      toChainFormat_add, toChainFormat_add]
    simp only [SpotOrderStateExpansion.updateFromDepositDeltas, totalBalance_applyDelta,
      SpotOrderStateExpansion.traderQuoteDepositDelta, DepositDelta.uniform_total]
    abel

/-- A sell brings in the notional: what the trader is charged goes to the recipients. -/
theorem limitSell_quoteFlow (env : SpotFillEnv D) (o : SpotLimitOrder D) (isMaker : Bool)
    (fq fp rate : D) :
    quoteFlow (getSpotLimitSellStateExpansion env o isMaker fq fp rate) = mul fq fp := by
  have hsplit := rewards_eq_traderFee env.feeDiscountConfig o.orderInfo.subaccountID fq fp
    rate env.market.relayerFeeShareRate
    (if isMaker then env.pointsMultiplier.makerPointsMultiplier
      else env.pointsMultiplier.takerPointsMultiplier) isMaker
  simp only [quoteFlow, getSpotLimitSellStateExpansion, limitOrderExpansion]
  rw [add_assoc, hsplit, sub_add_cancel]

section Exact

variable {env : SpotFillEnv ℚ} (hfees : ExchangeSpotHold.ValidFees env.market)
  (hc : env.feeDiscountConfig.Valid)

include hfees in
theorem restingBuy_quoteFlow (o : SpotLimitOrder ℚ) (fq fp : ℚ) :
    quoteFlow (getRestingSpotLimitBuyStateExpansion env o fq fp) = -(fq * fp) := by
  have hsplit := rewards_eq_traderFee env.feeDiscountConfig o.orderInfo.subaccountID fq fp
    env.market.makerFeeRate env.market.relayerFeeShareRate
    env.pointsMultiplier.makerPointsMultiplier true
  have hfee := traderFee_cases env.feeDiscountConfig o.orderInfo.subaccountID fq fp
    env.market.makerFeeRate env.market.relayerFeeShareRate
    env.pointsMultiplier.makerPointsMultiplier true hfees.share_nonneg hfees.share_le_one
  simp only [quoteFlow, getRestingSpotLimitBuyStateExpansion, limitOrderExpansion, mul_rat]
  rw [add_assoc, hsplit]
  rcases hfee with ⟨hneg, hle⟩ | ⟨hnn, heq⟩
  · rw [if_pos hneg, abs_of_nonpos hle]; ring
  · rw [if_neg (not_lt.mpr hnn), heq]; ring

variable {cp : ℚ}

include hfees hc in
theorem transientBuy_quoteFlow (o : SpotLimitOrder ℚ) {fq : ℚ} (hfq : 0 ≤ fq)
    (hcp : 0 ≤ cp) :
    quoteFlow (getTransientSpotLimitBuyStateExpansion env o cp fq) = -(fq * cp) := by
  obtain ⟨-, -, htotal, htrader⟩ := getTradeData_exact_of_nonneg env.feeDiscountConfig
    o.orderInfo.subaccountID fq cp env.market.takerFeeRate env.market.relayerFeeShareRate
    env.pointsMultiplier.takerPointsMultiplier false hc hfq hcp hfees.taker_nonneg
  have hsplit := rewards_eq_traderFee env.feeDiscountConfig o.orderInfo.subaccountID fq cp
    env.market.takerFeeRate env.market.relayerFeeShareRate
    env.pointsMultiplier.takerPointsMultiplier false
  have hnotional : (if fq ≠ 0 then fq * cp else 0) = fq * cp := by
    by_cases h : fq = 0
    · rw [if_neg (not_not.mpr h), h, zero_mul]
    · rw [if_pos h]
  simp only [quoteFlow, getTransientSpotLimitBuyStateExpansion, limitOrderExpansion, mul_rat]
  rw [add_assoc, hsplit, htotal, htrader, hnotional]
  ring

variable {rate : ℚ}

include hc in
/-- A market order moves the notional at the clearing price, and nothing without one. -/
theorem marketOrder_quoteFlow (o : SpotMarketOrder ℚ) (isMarketBuy : Bool) {fq : ℚ}
    (hfq : 0 ≤ fq) (hcp : 0 ≤ cp) (hrate : 0 ≤ rate) :
    quoteFlow (getSpotMarketOrderStateExpansion env o isMarketBuy fq (some cp) rate) =
      if isMarketBuy then -(fq * cp) else fq * cp := by
  obtain ⟨-, -, htotal, htrader⟩ := getTradeData_exact_of_nonneg env.feeDiscountConfig
    o.orderInfo.subaccountID fq cp rate env.market.relayerFeeShareRate
    env.pointsMultiplier.takerPointsMultiplier false hc hfq hcp hrate
  have hsplit := rewards_eq_traderFee env.feeDiscountConfig o.orderInfo.subaccountID fq cp
    rate env.market.relayerFeeShareRate env.pointsMultiplier.takerPointsMultiplier false
  simp only [quoteFlow, getSpotMarketOrderStateExpansion, Option.getD_some, mul_rat]
  rw [add_assoc, hsplit, htotal, htrader]
  cases isMarketBuy
  · simp only [Bool.false_eq_true, if_false]; ring
  · simp only [if_true]; ring

/-! ## Conservation of the auction -/

theorem eq_zero_of_sum_eq_zero {α : Type} {l : List α} {q : α → ℚ} (hq : ∀ a ∈ l, 0 ≤ q a)
    (h : (l.map q).sum = 0) : ∀ a ∈ l, q a = 0 :=
  List.forall_mem_map.mp (fun _ => List.all_zero_of_le_zero_le_of_sum_eq_zero
    (List.forall_mem_map.mpr hq) h)

/-- The filled quantity of a list of fills. -/
def quantitySum (fills : List (SpotFill ℚ)) : ℚ :=
  (fills.map SpotFill.fillQuantity).sum

/-- What expansions add to the sum of all deposits, in the base and in the quote denom. -/
structure Flow (expansions : List (SpotOrderStateExpansion ℚ)) (base quote : ℚ) : Prop where
  base : (expansions.map (fun e => e.baseChangeAmount)).sum = base
  quote : (expansions.map quoteFlow).sum = quote

theorem Flow.append {es fs : List (SpotOrderStateExpansion ℚ)} {b q b' q' : ℚ} (h : Flow es b q)
    (h' : Flow fs b' q') : Flow (es ++ fs) (b + b') (q + q') := by
  constructor
  · rw [List.map_append, List.sum_append, h.base, h'.base]
  · rw [List.map_append, List.sum_append, h.quote, h'.quote]

/-- A buyer gets the base quantity. -/
def sign (isBuy : Bool) : ℚ := if isBuy then 1 else -1

/-- Fills of one side move their quantity, and the notional the other way. -/
theorem flow_map {α : Type} {l : List α} {expansion : α → SpotOrderStateExpansion ℚ}
    {q p : α → ℚ} (isBuy : Bool)
    (h : ∀ a ∈ l, (expansion a).baseChangeAmount = (if isBuy then q a else -q a) ∧
      quoteFlow (expansion a) = if isBuy then -(q a * p a) else q a * p a) :
    Flow (l.map expansion) (sign isBuy * (l.map q).sum)
      (-sign isBuy * (l.map (fun a => q a * p a)).sum) := by
  constructor
  · rw [List.map_map, ← List.sum_map_mul_left]
    refine congrArg List.sum (List.map_congr_left fun a ha => (h a ha).1.trans ?_)
    cases isBuy
    · exact (neg_one_mul _).symm
    · exact (one_mul _).symm
  · rw [List.map_map, ← List.sum_map_mul_left]
    refine congrArg List.sum (List.map_congr_left fun a ha => (h a ha).2.trans ?_)
    cases isBuy
    · exact (neg_neg (1 : ℚ) ▸ one_mul _).symm
    · exact (neg_one_mul _).symm

include hfees in
theorem resting_flow (fills : List (SpotFill ℚ)) (isLimitBuy : Bool) (clearingPrice : Option ℚ) :
    Flow (processRestingSpotLimitOrderExpansions env fills isLimitBuy clearingPrice)
      (sign isLimitBuy * quantitySum fills)
      (-sign isLimitBuy * (fills.map (fun f =>
        f.fillQuantity * clearingPrice.getD f.order.orderInfo.price)).sum) := by
  refine flow_map isLimitBuy fun f _ => ?_
  cases isLimitBuy with
  | false => exact ⟨rfl, limitSell_quoteFlow env f.order true f.fillQuantity _ _⟩
  | true => exact ⟨rfl, restingBuy_quoteFlow hfees f.order f.fillQuantity _⟩

include hfees hc in
theorem transientBuys_flow {fills : List (SpotFill ℚ)} (hcp : 0 ≤ cp)
    (hfills : ∀ f ∈ fills, 0 ≤ f.fillQuantity) :
    Flow (processTransientSpotLimitBuys env fills cp) (sign true * quantitySum fills)
      (-sign true * (fills.map (fun f => f.fillQuantity * cp)).sum) :=
  flow_map true fun f hf => ⟨rfl, transientBuy_quoteFlow hfees hc f.order (hfills f hf) hcp⟩

theorem transientSells_flow (env : SpotFillEnv ℚ) (fills : List (SpotFill ℚ)) (cp : ℚ) :
    Flow (processTransientSpotLimitSells env fills cp) (sign false * quantitySum fills)
      (-sign false * (fills.map (fun f => f.fillQuantity * cp)).sum) :=
  flow_map false fun f _ => ⟨rfl, limitSell_quoteFlow env f.order false f.fillQuantity cp _⟩

/-- The sums of all deposits in both denoms are unchanged. -/
def Conserves (batch : SpotBatchExecutionData ℚ) : Prop :=
  DepositDeltas.totalBalance batch.depositDeltas.base = 0 ∧
    DepositDeltas.totalBalance batch.depositDeltas.quote = 0

theorem Flow.conserves {expansions : List (SpotOrderStateExpansion ℚ)} {b q : ℚ}
    (h : Flow expansions b q) (hb : b = 0) (hq : q = 0) (market : SpotMarket ℚ) :
    DepositDeltas.totalBalance (applyExpansions market expansions emptyDeltas).base = 0 ∧
      DepositDeltas.totalBalance (applyExpansions market expansions emptyDeltas).quote = 0 := by
  rw [applyExpansions_base, applyExpansions_quote, h.base, h.quote, hb, hq, toChainFormat_zero,
    toChainFormat_zero]
  exact ⟨add_zero 0, add_zero 0⟩

include hfees hc in
theorem processMatchResult_conserves {result : MatchResult ℚ}
    {buy sell : Option (SpotLimitOrderbook ℚ)} (hcp : 0 ≤ result.clearingPrice)
    (hbuy : ∀ f ∈ transientFills buy, 0 ≤ f.fillQuantity)
    (hequal : quantitySum (restingFills buy) + quantitySum (transientFills buy) =
      quantitySum (restingFills sell) + quantitySum (transientFills sell)) :
    Conserves (processMatchResult env result buy sell) := by
  have hresting := (resting_flow hfees (restingFills buy) true (some result.clearingPrice)).append
    (resting_flow hfees (restingFills sell) false (some result.clearingPrice))
  have htransient := (transientBuys_flow hfees hc hcp hbuy).append
    (transientSells_flow env (transientFills sell) result.clearingPrice)
  refine (hresting.append htransient).conserves ?_ ?_ env.market
  · simp only [sign, Bool.false_eq_true, if_true, if_false]
    linear_combination hequal
  · simp only [sign, Bool.false_eq_true, if_true, if_false, Option.getD_some,
      List.sum_map_mul_right]
    simp only [quantitySum] at hequal
    linear_combination -result.clearingPrice * hequal

/-- Without the paused transient orders a side is still a side. -/
def withoutPausedTransient {isBuy : Bool} (side : SideOrders D isBuy)
    (isPaused : Hash → Bool) : SideOrders D isBuy :=
  { resting := side.resting
    transient := filterPausedSpotLimitOrders isPaused side.transient
    fillable_nonneg := by
      intro o ho
      refine side.fillable_nonneg o ?_
      rcases List.mem_append.mp ho with ho | ho
      · exact List.mem_append_left _ ho
      · exact List.mem_append_right _ (List.mem_of_mem_filter ho) }

/-- Every limit price of a side is non-negative. -/
def NonnegPrices {isBuy : Bool} (side : SideOrders ℚ isBuy) : Prop :=
  ∀ o ∈ side.resting ++ side.transient, 0 ≤ o.orderInfo.price

variable {isBuy : Bool}

/-- The order of a filled entry is an unpaused order of its side. -/
theorem order_mem_of_filled {isPaused : Hash → Bool} {orders : List (SpotLimitOrder ℚ)}
    {ordered : Prop} {b : SpotLimitOrderbook ℚ}
    (h : SpotLimitOrderbook.Inv isPaused ordered isBuy orders b) {f : SpotFill ℚ} (hf : f ∈ b.entries isPaused) (hpos : 0 < f.fillQuantity) :
    f.order ∈ orders := by
  have hun : isPaused f.order.orderInfo.subaccountID = false := by
    by_contra hp
    exact hpos.ne' (h.idle f hf (by simpa using hp))
  rw [← h.orders]
  exact List.mem_map_of_mem (List.mem_filter.mpr ⟨hf, by rw [hun]; rfl⟩)

/-- The clearing price of an auction over non-negative prices is not negative. -/
theorem clearingPrice_nonneg {isPaused : Hash → Bool}
    {strategy : SpotClearingPriceStrategy ℚ} {buys : SideOrders ℚ true}
    {sells : SideOrders ℚ false} (hprices : NonnegPrices sells) {result : MatchResult ℚ}
    {buy sell : SpotLimitOrderbook ℚ}
    (h : matchLimitOrderbooks isPaused strategy.calculate buys.book sells.book =
      some (result, buy, sell)) : 0 ≤ result.clearingPrice := by
  by_cases hpos : 0 < result.clearingQuantity
  · obtain ⟨o, ho, hprice⟩ := lastSellPrice_mem strategy.calculate_between h hpos
    have hlow := ((matchLimitOrderbooks_within_limits strategy.calculate_between h).1 hpos).low
    exact (hprices o ho).trans (hprice.le.trans hlow)
  · obtain ⟨-, -, -, -, -, hcp⟩ := matchBooks_some h
    rw [hcp, SpotClearingPriceStrategy.calculate, if_pos hpos]

theorem newSpotLimitOrderbook_some (side : SideOrders D isBuy) {b : SpotLimitOrderbook D}
    (h : SpotLimitOrderbook.newSpotLimitOrderbook side.resting side.transient isBuy =
      some b) : b = side.book := by
  rw [SpotLimitOrderbook.newSpotLimitOrderbook] at h
  split at h
  · exact nomatch h
  exact (Option.some.inj h).symm

theorem fills_of_unmatched (side : SideOrders ℚ isBuy) :
    let b := SpotLimitOrderbook.newSpotLimitOrderbook side.resting side.transient isBuy
    (∀ f ∈ transientFills b, 0 ≤ f.fillQuantity) ∧ quantitySum (restingFills b) = 0 ∧
      quantitySum (transientFills b) = 0 := by
  intro b
  cases hb : b with
  | none => exact ⟨List.forall_mem_nil _, rfl, rfl⟩
  | some book =>
    obtain rfl := newSpotLimitOrderbook_some side hb
    have hzero : ∀ f ∈ transientFills (some side.book), f.fillQuantity = 0 := by
      intro f hf
      obtain ⟨o, -, rfl⟩ := List.mem_map.mp (show f ∈ side.transient.map _ from hf)
      rfl
    exact ⟨fun f hf => (hzero f hf).ge, rfl, List.sum_eq_zero (List.forall_mem_map.mpr hzero)⟩

include hfees hc in
theorem executeAuction_conserves (isPaused : Hash → Bool)
    (strategy : SpotClearingPriceStrategy ℚ) (buys : SideOrders ℚ true)
    {sells : SideOrders ℚ false} (hprices : NonnegPrices sells) :
    ∃ batch, executeAuction env isPaused strategy buys.resting buys.transient sells.resting
      sells.transient = some batch ∧ Conserves batch := by
  obtain ⟨hbn, hbr, hbt⟩ := fills_of_unmatched (withoutPausedTransient buys isPaused)
  obtain ⟨-, hsr, hst⟩ := fills_of_unmatched (withoutPausedTransient sells isPaused)
  simp only [executeAuction]
  -- without a book on one side the auction settles nothing
  have hempty := processMatchResult_conserves hfees hc (le_refl emptyMatchResult.clearingPrice)
    hbn ((congrArg₂ (· + ·) hbr hbt).trans (congrArg₂ (· + ·) hsr hst).symm)
  cases hb : SpotLimitOrderbook.newSpotLimitOrderbook buys.resting
      (filterPausedSpotLimitOrders isPaused buys.transient) true with
  | none => exact ⟨_, rfl, by rw [← hb]; exact hempty⟩
  | some b =>
    cases hs : SpotLimitOrderbook.newSpotLimitOrderbook sells.resting
        (filterPausedSpotLimitOrders isPaused sells.transient) false with
    | none => exact ⟨_, rfl, by rw [← hb, ← hs]; exact hempty⟩
    | some s =>
      obtain rfl := newSpotLimitOrderbook_some (withoutPausedTransient buys isPaused) hb
      obtain rfl := newSpotLimitOrderbook_some (withoutPausedTransient sells isPaused) hs
      obtain ⟨result, buy, sell, hmatch⟩ := matchLimitOrderbooks_finishes isPaused
        strategy.calculate (withoutPausedTransient buys isPaused)
        (withoutPausedTransient sells isPaused)
      obtain ⟨⟨hbi, -⟩, hqb, hqs, -⟩ := matchLimitOrderbooks_spec hmatch
      have hnn : NonnegPrices (withoutPausedTransient sells isPaused) := by
        intro o ho
        exact hprices o (((List.Sublist.refl _).append List.filter_sublist).subset ho)
      refine ⟨processMatchResult env result (some buy) (some sell),
        by simp only [hmatch, Option.map_some], ?_⟩
      refine processMatchResult_conserves hfees hc (clearingPrice_nonneg hnn hmatch) ?_ ?_
      · intro f hf
        exact (hbi.bounds f (Queue.booked_subset_entries (List.mem_append_right _ hf))).1
      · have hequal := hqb.trans hqs.symm
        simp only [filledQuantity, List.map_append, List.sum_append] at hequal
        exact hequal

/-! ## Conservation of market orders -/

/-- A limit book without transient orders, whose running notional is that of its fills. -/
structure RestingBook (b : SpotLimitOrderbook ℚ) : Prop where
  notional : b.notional =
    (b.queue.booked.map (fun f => f.fillQuantity * f.order.orderInfo.price)).sum
  passed : b.queue.passed = []
  pending : b.queue.pending = []

theorem RestingBook.booked {b : SpotLimitOrderbook ℚ} (h : RestingBook b) :
    b.queue.booked = b.getRestingOrderbookFills := by
  rw [Queue.booked, h.passed, h.pending, List.append_nil, List.append_nil]
  rfl

/-- What the book of a side without transient orders keeps. -/
def RestingInv (isPaused : Hash → Bool) {isBuy : Bool} (side : SideOrders ℚ isBuy)
    (b : SpotLimitOrderbook ℚ) : Prop :=
  SpotLimitOrderbook.Inv isPaused side.Sorted isBuy (side.unpaused isPaused) b ∧ RestingBook b

theorem restingSpec (isPaused : Hash → Bool) (side : SideOrders ℚ isBuy) :
    SideSpec (RestingInv isPaused side) (NoBetter side.Sorted isBuy)
      (SpotLimitOrderbook.peek isPaused) SpotLimitOrderbook.fill
      (SpotLimitOrderbook.view isPaused) View.blank := by
  refine (SpotLimitOrderbook.sideSpec isPaused side.Sorted isBuy _).strengthen ?_ ?_
  · intro b hI hb
    have hpeek := SpotLimitOrderbook.peek_spec hI
    obtain ⟨dropped, hd, hp, -⟩ := hpeek.advance.transient
    rw [hb.pending, List.nil_eq, List.append_eq_nil_iff] at hd
    refine ⟨?_, ?_, hd.2⟩
    · rw [hpeek.notional, hpeek.advance.sum_booked _ (fun _ => zero_mul _)]
      exact hb.notional
    · rw [hp, hb.passed, hd.1]
      rfl
  · rintro b a q - hb ⟨l, c, hl, hc, -, -⟩ - -
    cases l with
    | transient =>
      rw [Queue.current, hb.pending] at hc
      cases hc
    | resting =>
      obtain ⟨pre, post, hbook, hbook'⟩ := Queue.booked_modify (f := fun e => SpotFill.add e q) hc
      have hn := hb.notional
      rw [hbook] at hn
      rw [SpotLimitOrderbook.fill_eq hl hc]
      refine ⟨?_, hb.passed, hb.pending⟩
      show b.notional + q * c.order.orderInfo.price = _
      rw [hbook', hn]
      simp only [List.map_append, List.map_cons, List.sum_append, List.sum_cons, SpotFill.add]
      ring

theorem restingBook_book (side : SideOrders ℚ isBuy) (hside : side.transient = []) :
    RestingBook side.book := by
  have hpending : side.book.queue.pending = [] := by
    show side.transient.map _ = []
    rw [hside]
    rfl
  refine ⟨?_, rfl, hpending⟩
  rw [Queue.booked, hpending]
  rfl

theorem newSpotMarketOrderbook_inv {orders : List (SpotMarketOrder D)}
    (h : ∀ o ∈ orders, 0 ≤ o.orderInfo.quantity) :
    (SpotMarketOrderbook.newSpotMarketOrderbook orders).Inv := by
  have hfill : ∀ f ∈ (SpotMarketOrderbook.newSpotMarketOrderbook orders).fills,
      f.fillQuantity = 0 ∧ f.order ∈ orders := by
    intro f hf
    obtain ⟨o, ho, rfl⟩ := List.mem_map.mp (show f ∈ orders.map _ from hf)
    exact ⟨rfl, ho⟩
  refine ⟨List.forall_mem_nil _, ?_, ?_⟩
  · intro f hf
    obtain ⟨h0, ho⟩ := hfill f hf
    rw [h0]
    exact ⟨le_refl 0, h _ ho⟩
  · exact (List.sum_eq_zero (List.forall_mem_map.mpr fun f hf => (hfill f hf).1)).symm

theorem newSpotMarketOrderbook_filled (orders : List (SpotMarketOrder D)) :
    SpotMarketOrderbook.view.filled (SpotMarketOrderbook.newSpotMarketOrderbook orders) = [] := by
  rw [SpotMarketOrderbook.view, List.map_eq_nil_iff, List.filter_eq_nil_iff]
  intro f hf
  obtain ⟨o, -, rfl⟩ := List.mem_map.mp (show f ∈ orders.map _ from hf)
  simp

/-- Market orders against a limit book: the loop ends, with the same quantity filled on
    both sides. -/
theorem matchSpotOrderbooks_spec (isPaused : Hash → Bool) (isMarketBuy : Bool)
    {orders : List (SpotMarketOrder ℚ)} (horders : ∀ o ∈ orders, 0 ≤ o.orderInfo.quantity)
    (side : SideOrders ℚ (!isMarketBuy)) (hside : side.transient = []) :
    ∃ market limit,
      matchSpotOrderbooks isPaused isMarketBuy
        (SpotMarketOrderbook.newSpotMarketOrderbook orders) side.book = some (market, limit) ∧
      market.Inv ∧ RestingInv isPaused side limit ∧ market.totalQuantity = limit.totalQuantity := by
  have hmi := newSpotMarketOrderbook_inv horders
  have hmf := newSpotMarketOrderbook_filled orders
  have hli : RestingInv isPaused side side.book :=
    ⟨side.book_inv isPaused, restingBook_book side hside⟩
  have hlf := side.filled_book isPaused
  have hlen₁ := SpotMarketOrderbook.length_live_le
    (SpotMarketOrderbook.newSpotMarketOrderbook orders)
  have hlen₂ : ((SpotLimitOrderbook.view isPaused).live side.book).length ≤
      (side.book.entries isPaused).length := Queue.length_livePrices_le
  cases isMarketBuy with
  | true =>
    obtain ⟨h₁, h₂⟩ := SideSpec.pair pricesCross (SpotMarketOrderbook.sideSpec (D := ℚ))
      (restingSpec isPaused side)
    have hI := And.intro hmi hli
    obtain ⟨⟨ts, market, limit⟩, hrun⟩ := run_finishes h₁ h₂
      (s := (SpotMarketOrderbook.newSpotMarketOrderbook orders, side.book)) hI
      (Nat.lt_succ_of_le (Nat.add_le_add hlen₁ hlen₂))
    obtain ⟨⟨hm, hl⟩, ht₁, ht₂, -⟩ := run_spec h₁ h₂
      (s := (SpotMarketOrderbook.newSpotMarketOrderbook orders, side.book)) hI hmf hlf hrun
    refine ⟨market, limit, ?_, hm, hl, ht₁.trans ht₂.symm⟩
    simp only [matchSpotOrderbooks, if_true, hrun, Option.map_some]
  | false =>
    obtain ⟨h₁, h₂⟩ := SideSpec.pair pricesCross
      (restingSpec isPaused side)
      (SpotMarketOrderbook.sideSpec (D := ℚ))
    have hI := And.intro hli hmi
    obtain ⟨⟨ts, limit, market⟩, hrun⟩ := run_finishes h₁ h₂
      (s := (side.book, SpotMarketOrderbook.newSpotMarketOrderbook orders)) hI
      (Nat.lt_succ_of_le (Nat.add_le_add hlen₂ hlen₁))
    obtain ⟨⟨hl, hm⟩, ht₁, ht₂, -⟩ := run_spec h₁ h₂
      (s := (side.book, SpotMarketOrderbook.newSpotMarketOrderbook orders)) hI hlf hmf hrun
    refine ⟨market, limit, ?_, hm, hl, ht₂.trans ht₁.symm⟩
    rw [Nat.add_comm (side.book.entries isPaused).length] at hrun
    simp only [matchSpotOrderbooks, Bool.false_eq_true, if_false, hrun, Option.map_some]

include hc in
theorem marketOrders_flow (isMarketBuy : Bool) {fills : List (SpotMarketFill ℚ)}
    (hcp : 0 ≤ cp) (hrate : 0 ≤ rate) (hfills : ∀ f ∈ fills, 0 ≤ f.fillQuantity) :
    Flow (processSpotMarketOrderStateExpansions env isMarketBuy fills (some cp) rate)
      (sign isMarketBuy * (fills.map SpotMarketFill.fillQuantity).sum)
      (-sign isMarketBuy * (fills.map (fun f => f.fillQuantity * cp)).sum) :=
  flow_map isMarketBuy fun f hf =>
    ⟨rfl, marketOrder_quoteFlow hc f.order isMarketBuy (hfills f hf) hcp hrate⟩

/-- Without a clearing price market orders move nothing. -/
theorem unmatchedMarketOrders_flow (env : SpotFillEnv ℚ) (rate : ℚ) (isMarketBuy : Bool)
    {fills : List (SpotMarketFill ℚ)}
    (hfills : ∀ f ∈ fills, f.fillQuantity = 0) :
    Flow (processSpotMarketOrderStateExpansions env isMarketBuy fills none rate) 0 0 := by
  simp only [processSpotMarketOrderStateExpansions]
  constructor
  · refine List.sum_eq_zero (List.forall_mem_map.mpr (List.forall_mem_map.mpr fun f hf => ?_))
    rw [hfills f hf, getSpotMarketOrderStateExpansion]
    simp
  · refine List.sum_eq_zero (List.forall_mem_map.mpr (List.forall_mem_map.mpr fun f hf => ?_))
    rw [hfills f hf]
    simp only [quoteFlow, getSpotMarketOrderStateExpansion, getTradeData_zero,
      newEmptyTradeFeeData, add_zero]

include hfees hc in
/-- Market orders at the average price of the limit orders they met cancel them. -/
theorem marketBatch_conserves (isMarketBuy : Bool) {notional quantity : ℚ} (hrate : 0 ≤ rate)
    {marketFills : List (SpotMarketFill ℚ)} {limitFills : List (SpotFill ℚ)}
    (hm : ∀ f ∈ marketFills, 0 ≤ f.fillQuantity)
    (hl : ∀ f ∈ limitFills, 0 ≤ f.fillQuantity ∧ 0 ≤ f.fillQuantity * f.order.orderInfo.price)
    (hmq : (marketFills.map SpotMarketFill.fillQuantity).sum = quantity)
    (hlq : quantitySum limitFills = quantity)
    (hln : (limitFills.map (fun f => f.fillQuantity * f.order.orderInfo.price)).sum = notional) :
    Conserves (getSpotMarketOrderBatchExecutionData env.market
      (processRestingSpotLimitOrderExpansions env limitFills (!isMarketBuy) none)
      (processSpotMarketOrderStateExpansions env isMarketBuy marketFills
        (if 0 < quantity then some (quo notional quantity) else none) rate)) := by
  have hlimit := resting_flow hfees limitFills (!isMarketBuy) none
  simp only [Option.getD_none, hlq, hln] at hlimit
  have hopposite : sign (!isMarketBuy) = -sign isMarketBuy := by
    cases isMarketBuy
    · exact (neg_neg 1).symm
    · rfl
  by_cases hpos : 0 < quantity
  · have hnn : 0 ≤ notional := by
      rw [← hln]
      exact List.sum_nonneg (List.forall_mem_map.mpr fun f hf => (hl f hf).2)
    have hmarket := marketOrders_flow hc isMarketBuy (div_nonneg hnn hpos.le) hrate hm
    rw [List.sum_map_mul_right, hmq, mul_div_cancel₀ notional hpos.ne'] at hmarket
    rw [if_pos hpos]
    refine (hmarket.append hlimit).conserves ?_ ?_ env.market
    · rw [hopposite]
      ring
    · rw [hopposite]
      ring
  · -- nothing is filled on either side
    have hzero : quantity = 0 := by
      refine le_antisymm (not_lt.mp hpos) ?_
      rw [← hmq]
      exact List.sum_nonneg (List.forall_mem_map.mpr hm)
    have hlz := eq_zero_of_sum_eq_zero (fun f hf => (hl f hf).1) (hlq.trans hzero)
    have hn0 : notional = 0 := by
      rw [← hln]
      refine List.sum_eq_zero (List.forall_mem_map.mpr ?_)
      intro f hf
      rw [hlz f hf, zero_mul]
    have hmarket := unmatchedMarketOrders_flow env rate isMarketBuy
      (eq_zero_of_sum_eq_zero hm (hmq.trans hzero))
    rw [if_neg hpos]
    refine (hmarket.append hlimit).conserves ?_ ?_ env.market
    · rw [hzero, mul_zero, add_zero]
    · rw [hn0, mul_zero, add_zero]

/-- The resting orders of a side alone. -/
def restingOnly {isBuy : Bool} (side : SideOrders D isBuy) : SideOrders D isBuy :=
  { resting := side.resting
    transient := []
    fillable_nonneg := by
      intro o ho
      rw [List.append_nil] at ho
      exact side.fillable_nonneg o (List.mem_append_left _ ho) }

include hfees hc in
theorem executeMarketOrders_conserves (isPaused : Hash → Bool) (isMarketBuy : Bool)
    {takerFeeRate : ℚ} (hrate : 0 ≤ takerFeeRate) {marketOrders : List (SpotMarketOrder ℚ)}
    (horders : ∀ o ∈ marketOrders, 0 ≤ o.orderInfo.quantity)
    {side : SideOrders ℚ (!isMarketBuy)} (hprices : NonnegPrices side) :
    ∃ batch, executeMarketOrders env isPaused isMarketBuy takerFeeRate marketOrders
      side.resting = some batch ∧ Conserves batch := by
  have hfilter : ∀ o ∈ marketOrders.filter (fun o => !isPaused o.orderInfo.subaccountID),
      0 ≤ o.orderInfo.quantity := fun o ho => horders o (List.mem_of_mem_filter ho)
  simp only [executeMarketOrders]
  split
  · exact ⟨_, rfl, rfl, rfl⟩
  · cases hb : SpotLimitOrderbook.newSpotLimitOrderbook side.resting [] (!isMarketBuy) with
    | none =>
      have hinv := newSpotMarketOrderbook_inv hfilter
      have hnone : ∀ f ∈ ([] : List (SpotFill ℚ)),
          0 ≤ f.fillQuantity ∧ 0 ≤ f.fillQuantity * f.order.orderInfo.price :=
        List.forall_mem_nil _
      have hbatch := marketBatch_conserves hfees hc isMarketBuy hrate
        (fun f hf => (hinv.bounds f hf).1) hnone
        (hinv.total.symm.trans (rfl : _ = (0 : ℚ))) rfl rfl
      rw [if_neg (lt_irrefl 0)] at hbatch
      exact ⟨_, rfl, hbatch⟩
    | some limit₀ =>
      obtain rfl := newSpotLimitOrderbook_some (restingOnly side) hb
      obtain ⟨market, limit, hmatch, hm, ⟨hl, hn⟩, htotal⟩ :=
        matchSpotOrderbooks_spec isPaused isMarketBuy hfilter (restingOnly side) rfl
      have hfills : ∀ f ∈ limit.getRestingOrderbookFills,
          0 ≤ f.fillQuantity ∧ 0 ≤ f.fillQuantity * f.order.orderInfo.price := by
        intro f hf
        have hmem : f ∈ limit.entries isPaused :=
          Queue.booked_subset_entries (by rw [hn.booked]; exact hf)
        have hpos := (hl.bounds f hmem).1
        refine ⟨hpos, ?_⟩
        rcases hpos.eq_or_lt with h0 | hlt
        · rw [← h0, zero_mul]
        · refine mul_nonneg hpos (hprices f.order (List.mem_append_left _ ?_))
          have hin := List.mem_of_mem_filter (order_mem_of_filled hl hmem hlt)
          rwa [show (restingOnly side).transient = [] from rfl, List.append_nil] at hin
      refine ⟨_, by simp only [hmatch, Option.map_some]; rfl, ?_⟩
      refine marketBatch_conserves hfees hc isMarketBuy hrate
        (fun f hf => (hm.bounds f hf).1) hfills (hm.total.symm.trans htotal) ?_ ?_
      · rw [quantitySum, ← hn.booked]; exact hl.total.symm
      · rw [← hn.booked]; exact hn.notional.symm

end Exact

/-- **SPOT BATCHES CREATE NOTHING**: an auction over any limit orders, and market orders
    against any resting orders, finish and leave the sum of all deposits unchanged in
    the base and in the quote denom. -/
theorem spot_batch_conserves (env : SpotFillEnv ℚ)
    (hfees : ExchangeSpotHold.ValidFees env.market) (hc : env.feeDiscountConfig.Valid)
    (isPaused : Hash → Bool) :
    (∀ (strategy : SpotClearingPriceStrategy ℚ) (buys : SideOrders ℚ true)
        (sells : SideOrders ℚ false), NonnegPrices sells →
      ∃ batch, executeAuction env isPaused strategy buys.resting buys.transient
        sells.resting sells.transient = some batch ∧ Conserves batch) ∧
    (∀ (isMarketBuy : Bool) (takerFeeRate : ℚ) (marketOrders : List (SpotMarketOrder ℚ))
        (side : SideOrders ℚ (!isMarketBuy)), 0 ≤ takerFeeRate →
      (∀ o ∈ marketOrders, 0 ≤ o.orderInfo.quantity) → NonnegPrices side →
      ∃ batch, executeMarketOrders env isPaused isMarketBuy takerFeeRate marketOrders
        side.resting = some batch ∧ Conserves batch) := by
  constructor
  · intro strategy buys sells hprices
    exact executeAuction_conserves hfees hc isPaused strategy buys hprices
  · intro isMarketBuy takerFeeRate marketOrders side hrate horders hprices
    exact executeMarketOrders_conserves hfees hc isPaused isMarketBuy hrate horders hprices

/-- A resting sell of 2 at 9 and a transient one of 1 at 10. -/
def sampleSells : SideOrders ℚ false :=
  { resting := [sampleOrder 3 .sell 9 2]
    transient := [sampleOrder 4 .sell 10 1]
    fillable_nonneg := by decide +kernel }

/-- A resting buy of 1 at 10 and a transient one of 2 at 11. -/
def sampleBuys : SideOrders ℚ true :=
  { resting := [sampleOrder 1 .buy 10 1]
    transient := [sampleOrder 2 .buy 11 2]
    fillable_nonneg := by decide +kernel }

/-- A market buy of 1 with a limit of 12. -/
def sampleMarketOrder : SpotMarketOrder ℚ :=
  { orderInfo := { subaccountID := 5, feeRecipient := 0, price := 12, quantity := 1
                   cid := "" }
    orderType := .buy, balanceHold := 13, orderHash := 5 }

/-- The sample orders as an auction, and the market order against the resting sell. -/
theorem spot_batch_conserves_sample :
    (∃ batch, executeAuction (ExchangeSpotHold.sampleEnv (1 / 2)) (fun _ => false)
      ⟨none⟩ sampleBuys.resting sampleBuys.transient sampleSells.resting
      sampleSells.transient = some batch ∧ Conserves batch) ∧
    ∃ batch, executeMarketOrders (ExchangeSpotHold.sampleEnv (1 / 2)) (fun _ => false)
      true (1 / 500) [sampleMarketOrder] sampleSells.resting = some batch ∧
        Conserves batch := by
  have hprices : NonnegPrices sampleSells := by
    show ∀ o ∈ [sampleOrder 3 .sell 9 2, sampleOrder 4 .sell 10 1], 0 ≤ o.orderInfo.price
    decide +kernel
  obtain ⟨hauction, hmarket⟩ := spot_batch_conserves (ExchangeSpotHold.sampleEnv (1 / 2))
    ExchangeSpotHold.sampleMarket_validFees ExchangeSpotHold.sampleEnv_valid (fun _ => false)
  exact ⟨hauction ⟨none⟩ sampleBuys sampleSells hprices,
    hmarket true (1 / 500) [sampleMarketOrder] sampleSells (by norm_num)
      (by decide +kernel) hprices⟩

end ExchangeSpotBatch
