import InjectiveCore.ExchangePriceKeysProofs
import InjectiveCore.ExchangeSpotBatchProofs

/-!
# The hold of a spot market buy covers its fill

A market buy is charged at its own worst price, and filled at the average price of all the
resting sells its batch met. The average is below the price of each filled buy as long as the
orders that were matched came in the order of their prices: the last buy matched is then the
lowest, the last sell the highest, and these two crossed. What the loop never reached may
stand in any order.

* **`matchMarketBuys_spec`**: every filled sell is at or below every filled buy.
* **`market_buy_holds_suffice`**: every filled buy has its refund, of zero or more.
* **`top_price_hold_short`**: the store reads a buy at `MaxOrderPrice` after cheaper ones,
  and the average then passes the price of the cheaper buy.
-/

namespace ExchangeMarketHold

open DecArith MatchLoop TwoQueue ExchangeFees ExchangeFba ExchangeSpotFill ExchangeSpotBook
open ExchangeSpotBatch

variable {D : Type} [DecArith D]

/-! ## Placement and execution -/

/-- `SpotOrder.GetMarketOrderBalanceHold`. -/
def getMarketOrderBalanceHold (o : SpotOrder D) (feeRate bestPrice : D) : D :=
  if o.orderType.isBuy then
    max (mul (mul bestPrice o.orderInfo.quantity) (one + feeRate))
      (mul (mul o.orderInfo.price o.orderInfo.quantity) (one + feeRate))
  else o.orderInfo.quantity

/-- `SpotOrder.ToSpotMarketOrder`. -/
def toSpotMarketOrder (o : SpotOrder D) (balanceHold : D) (orderHash : Hash) :
    SpotMarketOrder D :=
  { orderInfo := o.orderInfo, orderType := o.orderType, balanceHold := balanceHold
    orderHash := orderHash }

/-- A market buy that was charged at the given rate, with the best sell price it met. -/
structure MarketBuy (feeRate : ℚ) where
  order : SpotOrder ℚ
  bestPrice : ℚ
  orderHash : Hash
  isBuy : order.orderType.isBuy = true
  quantity_pos : 0 < order.orderInfo.quantity

/-- The stored order of a market buy. -/
def MarketBuy.placed {feeRate : ℚ} (b : MarketBuy feeRate) : SpotMarketOrder ℚ :=
  toSpotMarketOrder b.order (getMarketOrderBalanceHold b.order feeRate b.bestPrice)
    b.orderHash

/-- `getMarketOrderStateExpansionsAndClearingPrice`: the expansions of the limit and of the
    market orders. -/
def getMarketOrderStateExpansions (env : SpotFillEnv D) (isPaused : Hash → Bool)
    (isMarketBuy : Bool) (marketOrders : List (SpotMarketOrder D))
    (restingOrders : List (SpotLimitOrder D)) (takerFeeRate : D) :
    Option (List (SpotOrderStateExpansion D) × List (SpotOrderStateExpansion D)) :=
  let market := SpotMarketOrderbook.newSpotMarketOrderbook marketOrders
  match SpotLimitOrderbook.newSpotLimitOrderbook restingOrders [] (!isMarketBuy) with
  | none =>
    some ([], processSpotMarketOrderStateExpansions env isMarketBuy market.fills none
      takerFeeRate)
  | some limit =>
    (matchSpotOrderbooks isPaused isMarketBuy market limit).map fun r =>
      let clearingQuantity := r.2.totalQuantity
      let clearingPrice :=
        if 0 < clearingQuantity then some (quo r.2.notional clearingQuantity) else none
      (processRestingSpotLimitOrderExpansions env r.2.getRestingOrderbookFills
          (!isMarketBuy) none,
        processSpotMarketOrderStateExpansions env isMarketBuy r.1.fills clearingPrice
          takerFeeRate)

/-- The executor turns these expansions of the unpaused orders into its batch. -/
theorem executeMarketOrders_eq (env : SpotFillEnv D) (isPaused : Hash → Bool)
    (isMarketBuy : Bool) (takerFeeRate : D) (marketOrders : List (SpotMarketOrder D))
    (restingOrders : List (SpotLimitOrder D))
    (h : marketOrders.filter (fun o => !isPaused o.orderInfo.subaccountID) ≠ []) :
    executeMarketOrders env isPaused isMarketBuy takerFeeRate marketOrders restingOrders =
      (getMarketOrderStateExpansions env isPaused isMarketBuy
        (marketOrders.filter (fun o => !isPaused o.orderInfo.subaccountID)) restingOrders
        takerFeeRate).map (fun e => getSpotMarketOrderBatchExecutionData env.market e.1 e.2) := by
  have hne := mt List.isEmpty_iff.mp h
  simp only [executeMarketOrders, getMarketOrderStateExpansions, if_neg hne]
  cases SpotLimitOrderbook.newSpotLimitOrderbook restingOrders [] (!isMarketBuy) with
  | none => rfl
  | some limit =>
    rw [Option.map_map]
    rfl

/-! ## Market buys in the order of their prices -/

/-- The trades of market buys with the resting sells. -/
def marketTrades (isPaused : Hash → Bool) (orders : List (SpotMarketOrder D))
    (restingOrders : List (SpotLimitOrder D)) : List (Trade D) :=
  let market := SpotMarketOrderbook.newSpotMarketOrderbook orders
  let limit := SpotLimitOrderbook.initial restingOrders [] false
  (Sides.pair SpotMarketOrderbook.peek SpotMarketOrderbook.fill
    (SpotLimitOrderbook.peek isPaused) SpotLimitOrderbook.fill pricesCross).trades
      (market.fills.length + (limit.entries isPaused).length + 1) (market, limit)

/-- The matched orders came in price order: the buys from the highest down, the sells from
    the lowest up. -/
structure MatchedInOrder (ts : List (Trade D)) : Prop where
  buys : InPriceOrder true (ts.map Trade.firstPrice)
  sells : InPriceOrder false (ts.map Trade.secondPrice)

/-- In order, no sell that was matched is above a buy that was. -/
theorem MatchedInOrder.sell_le_buy {ts : List (Trade D)} (h : MatchedInOrder ts)
    (hcross : ∀ t ∈ ts, t.secondPrice ≤ t.firstPrice) {p q : D}
    (hp : p ∈ ts.map Trade.secondPrice) (hq : q ∈ ts.map Trade.firstPrice) : p ≤ q := by
  obtain ⟨t, ht⟩ := Option.isSome_iff_exists.mp
    (List.getLast?_isSome.mpr (List.ne_nil_of_mem (List.mem_map.mp hp).choose_spec.1))
  have hlast : ∀ price : Trade D → D, price t ∈ (ts.map price).getLast? := by
    intro price
    rw [List.getLast?_map, ht]
    rfl
  have hsell := inPriceOrder_le_last h.sells (hlast Trade.secondPrice) p hp
  have hbuy := inPriceOrder_last_le h.buys (hlast Trade.firstPrice) q hq
  exact hsell.trans ((hcross t (List.mem_of_getLast? ht)).trans hbuy)

variable {orders : List (SpotMarketOrder ℚ)}

/-- A book of market orders keeps its orders. -/
theorem placedSpec (orders : List (SpotMarketOrder ℚ)) :
    SideSpec
      (fun b : SpotMarketOrderbook ℚ => b.Inv ∧ b.fills.map SpotMarketFill.order = orders)
      (fun _ _ => True) SpotMarketOrderbook.peek SpotMarketOrderbook.fill
      SpotMarketOrderbook.view View.blank := by
  refine (SpotMarketOrderbook.sideSpec (D := ℚ)).strengthen ?_ ?_
  · intro b _ hb
    rw [SpotMarketOrderbook.peek_fills]
    exact hb
  · rintro b a q - hb ⟨c, rest, hc, -, -⟩ - -
    rw [SpotMarketOrderbook.fills, hc] at hb
    rw [SpotMarketOrderbook.fill_eq hc, ← hb, SpotMarketOrderbook.fills, List.map_append,
      List.map_append]
    rfl

/-- Market buys against resting sells: the loop ends with the same quantity filled on both
    sides, and if what it matched came in order, every filled sell is at or below every filled
    buy. -/
theorem matchMarketBuys_spec (isPaused : Hash → Bool)
    (horders : ∀ o ∈ orders, 0 ≤ o.orderInfo.quantity) (sells : SideOrders ℚ false) :
    ∃ market limit,
      matchSpotOrderbooks isPaused true (SpotMarketOrderbook.newSpotMarketOrderbook orders)
        (restingOnly sells).book = some (market, limit) ∧
      market.Inv ∧ market.fills.map SpotMarketFill.order = orders ∧
      RestingInv isPaused (restingOnly sells) limit ∧
      market.totalQuantity = limit.totalQuantity ∧
      (MatchedInOrder (marketTrades isPaused orders sells.resting) →
        ∀ f ∈ market.fills, 0 < f.fillQuantity → ∀ g ∈ limit.queue.booked,
          0 < g.fillQuantity → g.order.orderInfo.price ≤ f.order.orderInfo.price) := by
  have hfills : (SpotMarketOrderbook.newSpotMarketOrderbook orders).fills.map
      SpotMarketFill.order = orders := by
    show (orders.map _).map _ = orders
    rw [List.map_map]
    exact List.map_id orders
  have hl : RestingInv isPaused (restingOnly sells) (restingOnly sells).book :=
    ⟨(restingOnly sells).book_inv isPaused, restingBook_book (restingOnly sells) rfl⟩
  have hI := And.intro (And.intro (newSpotMarketOrderbook_inv horders) hfills) hl
  have hlen₁ := SpotMarketOrderbook.length_live_le
    (SpotMarketOrderbook.newSpotMarketOrderbook orders)
  have hlen₂ : ((SpotLimitOrderbook.view isPaused).live (restingOnly sells).book).length ≤
      ((restingOnly sells).book.entries isPaused).length := Queue.length_livePrices_le
  obtain ⟨h₁, h₂⟩ := SideSpec.pair pricesCross (placedSpec orders)
    (restingSpec isPaused (restingOnly sells))
  obtain ⟨⟨ts, market, limit⟩, hrun⟩ := run_finishes h₁ h₂
    (s := (SpotMarketOrderbook.newSpotMarketOrderbook orders, (restingOnly sells).book)) hI
    (Nat.lt_succ_of_le (Nat.add_le_add hlen₁ hlen₂))
  obtain ⟨⟨⟨hm, ho⟩, hl⟩, ht₁, ht₂, hs₁, hs₂, hcross, -⟩ := run_spec h₁ h₂
    (s := (SpotMarketOrderbook.newSpotMarketOrderbook orders, (restingOnly sells).book)) hI
    (newSpotMarketOrderbook_filled orders) ((restingOnly sells).filled_book isPaused) hrun
  refine ⟨market, limit, ?_, hm, ho, hl, ht₁.trans ht₂.symm, ?_⟩
  · simp only [matchSpotOrderbooks, if_true, hrun, Option.map_some]
  · intro horder f hf hfpos g hg hgpos
    rw [show marketTrades isPaused orders sells.resting = ts from Sides.trades_eq hrun] at horder
    refine horder.sell_le_buy (fun t ht => pricesCross_eq_true.mp (hcross t ht).1)
      (hs₂.filled ?_) (hs₁.filled ?_)
    · exact List.mem_map.mpr ⟨g, List.mem_filter.mpr
        ⟨Queue.booked_subset_entries hg, decide_eq_true hgpos⟩, rfl⟩
    · exact List.mem_map.mpr ⟨f, List.mem_filter.mpr ⟨hf, decide_eq_true hfpos⟩, rfl⟩

/-! ## The average price -/

/-- The notional of fills at non-negative prices up to `p` is between zero and `p` times
    their quantity. -/
theorem notional_bounds (fills : List (SpotFill ℚ)) {p : ℚ}
    (h : ∀ f ∈ fills, 0 ≤ f.fillQuantity ∧
      (0 < f.fillQuantity → 0 ≤ f.order.orderInfo.price ∧ f.order.orderInfo.price ≤ p)) :
    0 ≤ (fills.map (fun f => f.fillQuantity * f.order.orderInfo.price)).sum ∧
      (fills.map (fun f => f.fillQuantity * f.order.orderInfo.price)).sum ≤
        (fills.map SpotFill.fillQuantity).sum * p := by
  induction fills with
  | nil => simp
  | cons f fills ih =>
    obtain ⟨hlow, hhigh⟩ := ih (fun g hg => h g (List.mem_cons_of_mem f hg))
    obtain ⟨hq, hprice⟩ := h f List.mem_cons_self
    have hf : 0 ≤ f.fillQuantity * f.order.orderInfo.price ∧
        f.fillQuantity * f.order.orderInfo.price ≤ f.fillQuantity * p := by
      rcases hq.eq_or_lt with h0 | hpos
      · rw [← h0, zero_mul, zero_mul]
        exact ⟨le_refl 0, le_refl 0⟩
      · obtain ⟨hp0, hp⟩ := hprice hpos
        exact ⟨mul_nonneg hq hp0, mul_le_mul_of_nonneg_left hp hq⟩
    simp only [List.map_cons, List.sum_cons, add_mul]
    exact ⟨add_nonneg hf.1 hlow, add_le_add hf.2 hhigh⟩

/-! ## Holds suffice -/

/-- A filled market order gets no negative refund: its hold is at least the notional at the
    execution price with the discounted fee. -/
def HoldCovers (env : SpotFillEnv ℚ) (takerFeeRate : ℚ) (e : SpotOrderStateExpansion ℚ) :
    Prop :=
  0 < e.marketOrderFillQuantity → 0 ≤ e.quoteRefundAmount ∧
    ∀ o, e.marketOrder = some o →
      e.marketOrderFillQuantity * e.tradePrice * (1 + discountedTradingFeeRate
        env.feeDiscountConfig takerFeeRate false e.traderAddress) ≤ o.balanceHold

/-- A fill within the quantity at an average price up to the buy's own is covered. -/
theorem MarketBuy.covers (env : SpotFillEnv ℚ) (hc : env.feeDiscountConfig.Valid)
    {rate : ℚ} (hrate : 0 ≤ rate) (b : MarketBuy rate) {fill average : ℚ} (h0 : 0 < fill)
    (hfill : fill ≤ b.order.orderInfo.quantity) (havg : 0 ≤ average)
    (hle : average ≤ b.order.orderInfo.price) :
    HoldCovers env rate
      (getSpotMarketOrderStateExpansion env b.placed true fill (some average) rate) := by
  obtain ⟨hd0, hd1, htotal, -⟩ := getTradeData_exact_of_nonneg env.feeDiscountConfig
    b.placed.orderInfo.subaccountID fill average rate env.market.relayerFeeShareRate
    env.pointsMultiplier.takerPointsMultiplier false hc h0.le havg hrate
  have hcost : fill * average * (1 + discountedTradingFeeRate env.feeDiscountConfig rate
      false (subaccountIDToEthAddress b.placed.orderInfo.subaccountID)) ≤ b.placed.balanceHold :=
    calc _ ≤ fill * average * (1 + rate) :=
          mul_le_mul_of_nonneg_left (by linarith) (mul_nonneg h0.le havg)
      _ ≤ b.order.orderInfo.price * b.order.orderInfo.quantity * (1 + rate) := by
          refine mul_le_mul_of_nonneg_right ?_ (by linarith)
          rw [mul_comm]
          exact mul_le_mul hle hfill h0.le (havg.trans hle)
      _ ≤ b.placed.balanceHold := by
          show _ ≤ getMarketOrderBalanceHold b.order rate b.bestPrice
          rw [getMarketOrderBalanceHold, if_pos b.isBuy]
          exact le_max_right _ _
  intro _
  refine ⟨?_, ?_⟩
  · simp only [getSpotMarketOrderStateExpansion, if_true, Option.getD_some, mul_rat, htotal]
    linarith
  · rintro o ⟨⟩
    exact hcost

/-- **HOLDS SUFFICE IN PRICE ORDER**: market buys against any resting sells are executed to the
    end, and if the orders that are matched on the way come in price order, the hold of every
    filled buy covers its fill at the average price, at every discount. -/
theorem market_buy_holds_suffice (env : SpotFillEnv ℚ) (hc : env.feeDiscountConfig.Valid)
    (isPaused : Hash → Bool) (rate : ℚ) (hrate : 0 ≤ rate) (buys : List (MarketBuy rate))
    (sells : SideOrders ℚ false) (hprices : NonnegPrices sells) :
    ∃ expansions, getMarketOrderStateExpansions env isPaused true
        (buys.map MarketBuy.placed) sells.resting rate = some expansions ∧
      (MatchedInOrder (marketTrades isPaused (buys.map MarketBuy.placed) sells.resting) →
        ∀ e ∈ expansions.2, HoldCovers env rate e) := by
  have hquantity : ∀ o ∈ buys.map MarketBuy.placed, 0 ≤ o.orderInfo.quantity := by
    intro o ho
    obtain ⟨b, -, rfl⟩ := List.mem_map.mp ho
    exact b.quantity_pos.le
  simp only [getMarketOrderStateExpansions]
  cases hb : SpotLimitOrderbook.newSpotLimitOrderbook sells.resting [] (!true) with
  | none =>
    refine ⟨_, rfl, ?_⟩
    intro _ e he hpos
    -- without a sell no order is filled
    obtain ⟨f, hf, rfl⟩ := List.mem_map.mp he
    obtain ⟨o, -, rfl⟩ := List.mem_map.mp (show f ∈ (buys.map MarketBuy.placed).map _ from hf)
    exact absurd hpos (lt_irrefl 0)
  | some limit₀ =>
    obtain rfl := newSpotLimitOrderbook_some (restingOnly sells) hb
    obtain ⟨market, limit, hmatch, hm, horders, ⟨hl, hn⟩, htotal, hmeet⟩ :=
      matchMarketBuys_spec isPaused hquantity sells
    refine ⟨_, by simp only [hmatch, Option.map_some]; rfl, ?_⟩
    intro horder e he hpos
    obtain ⟨f, hf, rfl⟩ := List.mem_map.mp he
    replace hpos : 0 < f.fillQuantity := hpos
    obtain ⟨b, -, hplaced⟩ := List.mem_map.mp (horders ▸ List.mem_map_of_mem hf)
    have hbounds := notional_bounds limit.queue.booked
      (p := f.order.orderInfo.price) (by
        intro g hg
        refine ⟨(hl.bounds g (Queue.booked_subset_entries hg)).1, ?_⟩
        intro hgpos
        refine ⟨?_, hmeet horder f hf hpos g hg hgpos⟩
        have hmem := List.mem_of_mem_filter (order_mem_of_filled hl
          (Queue.booked_subset_entries hg) hgpos)
        rw [show (restingOnly sells).transient = [] from rfl, List.append_nil] at hmem
        exact hprices g.order (List.mem_append_left _ hmem))
    rw [← hn.notional, ← hl.total] at hbounds
    have hquant : 0 < limit.totalQuantity := by
      rw [← htotal, hm.total]
      refine hpos.trans_le (List.single_le_sum ?_ _ (List.mem_map_of_mem hf))
      intro x hx
      obtain ⟨g, hg, rfl⟩ := List.mem_map.mp hx
      exact (hm.bounds g hg).1
    have hfill := (hm.bounds f hf).2
    rw [if_pos hquant]
    rw [← hplaced] at hfill hbounds ⊢
    exact b.covers env hc hrate hpos hfill (div_nonneg hbounds.1 hquant.le)
      ((div_le_iff₀' hquant).mpr hbounds.2) hpos

/-- A market buy of 1 at a limit, placed when the best sell was at 1. -/
def sampleBuy (subaccountID : Hash) (price : ℚ) : MarketBuy (1 / 500) :=
  { order := { orderInfo := { subaccountID := subaccountID, feeRecipient := 0, price := price
                              quantity := 1, cid := "" }
               orderType := .buy }
    bestPrice := 1, orderHash := subaccountID, isBuy := rfl, quantity_pos := one_pos }

/-- Resting sells as the store reads them: of 5 at 1, then at `10 ^ 32` and at `5 * 10 ^ 31`. -/
def sampleSells : SideOrders ℚ false :=
  { resting := [sampleOrder 3 .sell 1 5, sampleOrder 4 .sell (10 ^ 32) 1,
      sampleOrder 5 .sell (5 * 10 ^ 31) 1]
    transient := []
    fillable_nonneg := by decide +kernel }

/-- Two buys, from the highest price down, that are done before the misplaced sells are
    reached. -/
theorem market_buy_holds_suffice_sample :
    ∃ expansions, getMarketOrderStateExpansions (ExchangeSpotHold.sampleEnv (1 / 2))
        (fun _ => false) true ([sampleBuy 1 10, sampleBuy 2 5].map MarketBuy.placed)
        sampleSells.resting (1 / 500) = some expansions ∧
      ∀ e ∈ expansions.2, HoldCovers (ExchangeSpotHold.sampleEnv (1 / 2)) (1 / 500) e := by
  have hprices : NonnegPrices sampleSells := by
    show ∀ o ∈ [sampleOrder 3 .sell 1 5, sampleOrder 4 .sell (10 ^ 32) 1,
      sampleOrder 5 .sell (5 * 10 ^ 31) 1], 0 ≤ o.orderInfo.price
    decide +kernel
  have htrades : marketTrades (fun _ => false)
      ([sampleBuy 1 10, sampleBuy 2 5].map MarketBuy.placed) sampleSells.resting =
        [⟨10, 1, 1⟩, ⟨5, 1, 1⟩] := by decide +kernel
  obtain ⟨expansions, hrun, hcovers⟩ := market_buy_holds_suffice
    (ExchangeSpotHold.sampleEnv (1 / 2)) ExchangeSpotHold.sampleEnv_valid (fun _ => false)
    (1 / 500) (by norm_num) [sampleBuy 1 10, sampleBuy 2 5] sampleSells hprices
  refine ⟨expansions, hrun, hcovers ?_⟩
  rw [htrades]
  exact ⟨List.pairwise_pair.mpr (not_lt.mpr (by norm_num : (5 : ℚ) ≤ 10)),
    List.pairwise_pair.mpr (lt_irrefl 1)⟩

/-- **THE TOP PRICE BREAKS THE ORDER**: the store reads market buys from the last key down,
    and the key of `MaxOrderPrice` is below that of `5 * 10 ^ 31`. The cheaper buy comes
    first, takes the sell at 1, and pays the average with the sell at `10 ^ 32`. -/
theorem top_price_hold_short :
    ExchangePriceKeys.validPrice (newDec (5 * 10 ^ 31)) = true ∧
      ExchangePriceKeys.validPrice ExchangePriceKeys.maxOrderPrice = true ∧
      ExchangeSubaccountOrders.getPaddedPrice ExchangePriceKeys.maxOrderPrice <
        ExchangeSubaccountOrders.getPaddedPrice (newDec (5 * 10 ^ 31)) ∧
      (getMarketOrderStateExpansions (ExchangeSpotHold.sampleEnv (1 / 2)) (fun _ => false)
        true ([sampleBuy 1 (5 * 10 ^ 31), sampleBuy 2 (10 ^ 32)].map MarketBuy.placed)
        [sampleOrder 3 .sell 1 1, sampleOrder 4 .sell (10 ^ 32) 1] (1 / 500)).map
          (fun x => x.2.map (fun e => (e.marketOrderFillQuantity, e.quoteRefundAmount))) =
        some [(1, -501 / 1000), (1, 501 * 10 ^ 29 - 501 / 1000)] := by
  refine ⟨by decide, by decide, ?_, by decide +kernel⟩
  have h := ExchangePriceKeys.key_maxOrderPrice_lt_key (p := newDec (5 * 10 ^ 31))
    (q := ExchangePriceKeys.maxOrderPrice) (by decide) [] []
  rwa [List.append_nil, List.append_nil] at h

end ExchangeMarketHold
