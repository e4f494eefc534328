import InjectiveCore.ExchangePriceKeysProofs
import InjectiveCore.ExchangeSpotBookProofs
import InjectiveCore.ExchangeOpenNotionalCapProofs

/-!
# The derivative auction

`Match` over the two limit order books of a derivative market. The books are built with
`isLiquidation` false and read each other's added open notional.

- `matchLimitOrderbooks_finishes` and `matchLimitOrderbooks_within_limits`: the auction
  ends, and no filled order is on the wrong side of the clearing price.
- `open_notional_within_cap`: an order is admitted at its full remaining size, before it
  is known how much of it will be filled and what the other side will do with its own
  position. After every single fill the open notional is still at most the cap, or what
  it was at the start if that was more.
-/

namespace ExchangeDerivativeAuction

open DecArith MatchLoop TwoQueue GrossExposure ExchangePosition ExchangeFees ExchangeFba
  ExchangeDerivativeFill ExchangeMatchState ExchangeDerivativeBook ExchangeLinkedBooks
  ExchangeOpenNotionalCap

variable {R D : Type} [DecArith D]

/-- The two limit books of an auction. -/
abbrev AuctionBooks (R D : Type) := Linked R D (LimitOrderbook D) (LimitOrderbook D)

/-- The buy book and the sell book as sides of `Match`. -/
def auctionSides (E : MatchEnv R D) : Sides (AuctionBooks R D) D :=
  linkedSides (limitOps E) (limitOps E) pricesCross

/-- The books as `buildOrderbooks` links them. -/
def buildOrderbooks (buys : SideOrders D true) (sells : SideOrders D false) (risk : R) :
    AuctionBooks R D :=
  { first := buys.book false, second := sells.book false, state := .initial risk }

/-- The trades of `Match` over two linked books. -/
def auctionTrades (E : MatchEnv R D) (s : AuctionBooks R D) : List (Trade D) :=
  (auctionSides E).trades (s.first.entries.length + s.second.entries.length + 1) s

/-- `Match` over two linked books, with fuel for one iteration per order. -/
def matchLimitOrderbooks (E : MatchEnv R D) (calculate : D → D → D → D)
    (s : AuctionBooks R D) : Option (MatchResult D × AuctionBooks R D) :=
  matchBooks (auctionSides E) (fun s => s.second.totalQuantity) calculate
    (s.first.entries.length + s.second.entries.length + 1) s

/-! ## The clearing price -/

section ClearingPrice

variable (E : MatchEnv R D) (buys : SideOrders D true) (sells : SideOrders D false)

theorem auctionSides_spec :
    SideSpec (fun s : AuctionBooks R D =>
        LimitOrderbook.Inv buys s.first ∧ LimitOrderbook.Inv sells s.second)
      (NoBetter buys.Sorted true) (auctionSides E).peekFirst (auctionSides E).fillFirst
      (LimitOrderbook.view.comap Linked.first)
      (LimitOrderbook.view.comap Linked.second) ∧
    SideSpec (fun s : AuctionBooks R D =>
        LimitOrderbook.Inv buys s.first ∧ LimitOrderbook.Inv sells s.second)
      (NoBetter sells.Sorted false) (auctionSides E).peekSecond (auctionSides E).fillSecond
      (LimitOrderbook.view.comap Linked.second)
      (LimitOrderbook.view.comap Linked.first) :=
  linkedSides_spec pricesCross (limitOps_priceOrdered E buys) (limitOps_priceOrdered E sells)

theorem matchLimitOrderbooks_finishes (calculate : D → D → D → D) (risk : R) :
    ∃ result s, matchLimitOrderbooks E calculate (buildOrderbooks buys sells risk) =
      some (result, s) := by
  obtain ⟨hbuy, hsell⟩ := auctionSides_spec E buys sells
  obtain ⟨⟨ts, s⟩, hrun⟩ := run_finishes hbuy hsell
    (n := (buys.book false).entries.length + (sells.book false).entries.length + 1)
    (s := buildOrderbooks buys sells risk)
    ⟨buys.book_inv false, sells.book_inv false⟩
    (Nat.lt_succ_of_le (Nat.add_le_add Queue.length_livePrices_le Queue.length_livePrices_le))
  exact ⟨_, s, by rw [matchLimitOrderbooks, matchBooks]; exact congrArg _ hrun⟩

variable {E buys sells}

/-- The clearing price lies between the last matched prices, and a side whose matched prices
    came in order has no fill on the wrong side of it. -/
structure WithinLimits (ts : List (Trade D)) (result : MatchResult D) (s : AuctionBooks R D) :
    Prop where
  low : result.lastSellPrice ≤ result.clearingPrice
  high : result.clearingPrice ≤ result.lastBuyPrice
  buys : InPriceOrder true (ts.map Trade.firstPrice) →
    ∀ e ∈ s.first.entries, 0 < e.fillQuantity → result.clearingPrice ≤ e.order.orderInfo.price
  sells : InPriceOrder false (ts.map Trade.secondPrice) →
    ∀ e ∈ s.second.entries, 0 < e.fillQuantity → e.order.orderInfo.price ≤ result.clearingPrice

theorem matchLimitOrderbooks_within_limits {calculate : D → D → D → D}
    (hcalc : Between calculate) {risk : R} {result : MatchResult D} {s : AuctionBooks R D}
    (h : matchLimitOrderbooks E calculate (buildOrderbooks buys sells risk) =
      some (result, s)) :
    (0 < result.clearingQuantity →
      WithinLimits (auctionTrades E (buildOrderbooks buys sells risk)) result s) ∧
    (buys.Sorted → InPriceOrder true
      ((auctionTrades E (buildOrderbooks buys sells risk)).map Trade.firstPrice)) ∧
    (sells.Sorted → InPriceOrder false
      ((auctionTrades E (buildOrderbooks buys sells risk)).map Trade.secondPrice)) := by
  obtain ⟨hbuy, hsell⟩ := auctionSides_spec E buys sells
  obtain ⟨-, hmatched, horder⟩ := matchBooks_within_limits hbuy hsell rfl hcalc
    (s := buildOrderbooks buys sells risk) ⟨buys.book_inv false, sells.book_inv false⟩
    (buys.filled_book false) (sells.filled_book false) rfl h
  refine ⟨?_, horder⟩
  intro hpos
  obtain ⟨-, hlow, hhigh, hbuys, hsells⟩ := hmatched hpos
  refine ⟨hlow, hhigh, ?_, ?_⟩
  · intro ho e he hfill
    exact hbuys ho _ (List.mem_map.mpr ⟨e, List.mem_filter.mpr ⟨he, decide_eq_true hfill⟩, rfl⟩)
  · intro ho e he hfill
    exact hsells ho _ (List.mem_map.mpr ⟨e, List.mem_filter.mpr ⟨he, decide_eq_true hfill⟩, rfl⟩)

end ClearingPrice

/-- **FILLS RESPECT THEIR LIMITS IN PRICE ORDER**, in spot and in derivative auctions, with
    whatever reference prices there are: an auction ends, and if anything matched then the
    clearing price lies between the last matched prices. If the buys it matched came from the
    highest price down, every filled buy has a limit of at least the clearing price; if the
    sells came from the lowest up, every filled sell has one of at most that. They do on a
    side that is read in price order. -/
theorem fills_within_limits :
    (∀ (isPaused : Hash → Bool) (strategy : SpotClearingPriceStrategy D)
      (buys : ExchangeSpotBook.SideOrders D true)
      (sells : ExchangeSpotBook.SideOrders D false),
      ∃ result buy sell,
        ExchangeSpotBook.matchLimitOrderbooks isPaused strategy.calculate buys.book
          sells.book = some (result, buy, sell) ∧
        (0 < result.clearingQuantity → ExchangeSpotBook.WithinLimits isPaused
          (ExchangeSpotBook.limitTrades isPaused buys.book sells.book) result buy sell) ∧
        (buys.Sorted → InPriceOrder true
          ((ExchangeSpotBook.limitTrades isPaused buys.book sells.book).map
            Trade.firstPrice)) ∧
        (sells.Sorted → InPriceOrder false
          ((ExchangeSpotBook.limitTrades isPaused buys.book sells.book).map
            Trade.secondPrice))) ∧
    ∀ (E : MatchEnv R D) (strategy : DerivativeClearingPriceStrategy D)
      (buys : SideOrders D true) (sells : SideOrders D false) (risk : R),
      ∃ result s,
        matchLimitOrderbooks E strategy.calculate (buildOrderbooks buys sells risk) =
          some (result, s) ∧
        (0 < result.clearingQuantity →
          WithinLimits (auctionTrades E (buildOrderbooks buys sells risk)) result s) ∧
        (buys.Sorted → InPriceOrder true
          ((auctionTrades E (buildOrderbooks buys sells risk)).map Trade.firstPrice)) ∧
        (sells.Sorted → InPriceOrder false
          ((auctionTrades E (buildOrderbooks buys sells risk)).map Trade.secondPrice)) := by
  constructor
  · intro isPaused strategy buys sells
    obtain ⟨result, buy, sell, h⟩ := ExchangeSpotBook.matchLimitOrderbooks_finishes
      isPaused strategy.calculate buys sells
    exact ⟨result, buy, sell, h,
      ExchangeSpotBook.matchLimitOrderbooks_within_limits strategy.calculate_between h⟩
  · intro E strategy buys sells risk
    obtain ⟨result, s, h⟩ :=
      matchLimitOrderbooks_finishes E buys sells strategy.calculate risk
    exact ⟨result, s, h, matchLimitOrderbooks_within_limits strategy.calculate_between h⟩

/-- A long of 1. -/
def samplePosition : Position ℚ :=
  { isLong := true, quantity := 1, entryPrice := 8, margin := 2
    cumulativeFundingEntry := none }

/-- A market that caps its open notional at 20, at a mark price of 10. Subaccount 2 is
    long 1, and the risk engine turns nobody away. -/
def sampleEnv : MatchEnv Unit ℚ where
  fill :=
    { market := { marketType := .perpetual, makerFeeRate := 1 / 1000
                  takerFeeRate := 1 / 500, relayerFeeShareRate := 2 / 5
                  oracleScaleFactor := 0, quoteDecimals := 6
                  initialMarginRatio := 1 / 10, openNotionalCap := .capped 20 }
      funding := none, tradeRewardMultiplierConfig := ⟨1, 1⟩, feeDiscountConfig := .none
      isCrossMargin := fun _ => false
      getPosition := Function.update (fun _ => none) 2 (some samplePosition) }
  markPrice := some 10
  currentOpenNotional := 0
  atomicExecutionFeeMultiplier := 2
  riskEngine :=
    { checkCrossMarginEmergencyPause := fun _ _ => false
      decrementLastLookOLR := fun _ _ _ => ()
      checkValidPositionToReduce := fun _ _ _ _ _ _ _ => false
      shouldSkipDerivativeOrderForMarginRequirement := fun _ _ _ => (false, ()) }
  quantity_nonneg := NonnegQuantities.empty.update 2 zero_le_one
  markPrice_nonneg := by norm_num

/-- An unfilled limit order. -/
def sampleOrder (subaccountID : Hash) (orderType : ExchangeFees.OrderType)
    (price fillable : ℚ) : DerivativeLimitOrder ℚ :=
  { orderInfo := { subaccountID := subaccountID, feeRecipient := 0, price := price
                   quantity := fillable, cid := "" }
    orderType := orderType, margin := fillable, fillable := fillable
    orderHash := subaccountID }

/-- One order on a side. -/
def sampleSide (isBuy : Bool) (subaccountID : Hash) (price : ℚ) : SideOrders ℚ isBuy where
  resting := [sampleOrder subaccountID (if isBuy then .buy else .sell) price 2]
  transient := []
  fillable_nonneg := by
    intro o ho
    rw [List.append_nil, List.mem_singleton] at ho
    rw [ho]
    exact zero_le_two
  direction := by
    intro o ho
    rw [List.append_nil, List.mem_singleton] at ho
    rw [ho]
    cases isBuy
    · rfl
    · rfl
  hashes_nodup := List.nodup_singleton _

/-- A buy of 2 at 10 meets a sell of 2 at 9. -/
def sampleBooks : AuctionBooks Unit ℚ :=
  buildOrderbooks (sampleSide true 1 10) (sampleSide false 2 9) ()

/-- Without any reference price the sample clears in the middle, within both limits. -/
theorem fills_within_limits_sample :
    ∃ result s,
      matchLimitOrderbooks sampleEnv
        (DerivativeClearingPriceStrategy.calculate ⟨none, none⟩) sampleBooks =
          some (result, s) ∧
      result.clearingPrice = 19 / 2 ∧
      (∀ e ∈ s.first.entries, 0 < e.fillQuantity → 19 / 2 ≤ e.order.orderInfo.price) ∧
      ∀ e ∈ s.second.entries, 0 < e.fillQuantity → e.order.orderInfo.price ≤ 19 / 2 := by
  obtain ⟨result, s, hmatch, hlimits⟩ := fills_within_limits.2 sampleEnv ⟨none, none⟩
    (sampleSide true 1 10) (sampleSide false 2 9) ()
  have hresult : (matchLimitOrderbooks sampleEnv
      (DerivativeClearingPriceStrategy.calculate ⟨none, none⟩) sampleBooks).map Prod.fst =
        some ⟨10, 9, 2, 19 / 2⟩ := by decide +kernel
  rw [sampleBooks, hmatch, Option.map_some, Option.some.injEq] at hresult
  change result = _ at hresult
  subst hresult
  obtain ⟨hwithin, hbuys, hsells⟩ := hlimits
  have hsorted : ∀ isBuy k p, (sampleSide isBuy k p).Sorted :=
    fun _ _ _ => ⟨List.pairwise_singleton _ _, List.Pairwise.nil⟩
  exact ⟨_, s, hmatch, rfl, (hwithin (by norm_num)).buys (hbuys (hsorted _ _ _)),
    (hwithin (by norm_num)).sells (hsells (hsorted _ _ _))⟩

/-- **THE TOP PRICE BREAKS THE ORDER**: the store reads buys from the last key down, and the
    key of `MaxOrderPrice` is below that of `5 * 10 ^ 31`. The cheaper buy comes first and
    takes the sell at 1; the dearer one then meets the sell at `9 * 10 ^ 31`, and both clear
    between these two, above the limit of the cheaper. -/
theorem fill_above_its_limit :
    ExchangePriceKeys.validPrice (newDec (5 * 10 ^ 31)) = true ∧
      ExchangePriceKeys.validPrice ExchangePriceKeys.maxOrderPrice = true ∧
      ExchangeSubaccountOrders.getPaddedPrice ExchangePriceKeys.maxOrderPrice <
        ExchangeSubaccountOrders.getPaddedPrice (newDec (5 * 10 ^ 31)) ∧
      (ExchangeSpotBook.matchLimitOrderbooks (fun _ => false)
        (SpotClearingPriceStrategy.calculate ⟨none⟩)
        (.initial [ExchangeSpotBook.sampleOrder 1 .buy (5 * 10 ^ 31) 1,
          ExchangeSpotBook.sampleOrder 2 .buy (10 ^ 32) 1] [] true)
        (.initial [ExchangeSpotBook.sampleOrder 3 .sell 1 1,
          ExchangeSpotBook.sampleOrder 4 .sell (9 * 10 ^ 31) 1] [] false)).map
          (fun r => (r.1.clearingPrice, r.2.1.getRestingOrderbookFills)) =
        some (95 * 10 ^ 30, [⟨ExchangeSpotBook.sampleOrder 1 .buy (5 * 10 ^ 31) 1, 1⟩,
          ⟨ExchangeSpotBook.sampleOrder 2 .buy (10 ^ 32) 1, 1⟩]) := by
  refine ⟨by decide, by decide, ?_, by decide +kernel⟩
  have h := ExchangePriceKeys.key_maxOrderPrice_lt_key (p := newDec (5 * 10 ^ 31))
    (q := ExchangePriceKeys.maxOrderPrice) (by decide) [] []
  rwa [List.append_nil, List.append_nil] at h

/-! ## Priority and maximality -/

/-- A side after the auction: its orders are all there, none is filled beyond its fillable
    quantity, what is reported as cancelled has no fill, and on a side that is read in price
    order one has a fill only if every strictly better one is full or was thrown out. -/
structure Matched {isBuy : Bool} (side : SideOrders D isBuy) (b : LimitOrderbook D) :
    Prop where
  orders : b.entries.map BookFill.order = side.resting ++ side.transient
  bounds : ∀ e ∈ b.entries, 0 ≤ e.fillQuantity ∧ e.fillQuantity ≤ e.order.fillable
  cancelled : ∀ e ∈ b.entries, e.order.orderHash ∈ b.orderCancelHashes →
    e.isCancelled = true ∧ e.fillQuantity = 0
  priority : side.Sorted → ∀ e ∈ b.entries, ∀ f ∈ b.entries, 0 < f.fillQuantity →
    e.isCancelled = false →
    StrictlyBetter isBuy e.order.orderInfo.price f.order.orderInfo.price →
    e.fillQuantity = e.order.fillable

section Priority

variable {isBuy : Bool} {side : SideOrders D isBuy} {b : LimitOrderbook D} {e : BookFill D}

theorem price_mem_livePrices (he : e ∈ b.entries) (hkept : e.isCancelled = false)
    (hopen : e.fillQuantity ≠ e.order.fillable) :
    e.order.orderInfo.price ∈ b.queue.livePrices reader :=
  List.mem_map.mpr ⟨e, List.mem_filter.mpr
    ⟨he, decide_eq_true ((live_iff e).mpr ⟨hkept, sub_ne_zero.mpr hopen.symm⟩)⟩, rfl⟩

theorem matched_of_separates (h : LimitOrderbook.Inv side b) {start prices : List D}
    (hsep : Separates (NoBetter side.Sorted isBuy) LimitOrderbook.view start b prices) :
    Matched side b := by
  refine ⟨h.orders, h.bounds, h.cancelled, ?_⟩
  intro ho e he f hf hfill hkept hbetter
  by_contra hopen
  have hlive := price_mem_livePrices he hkept hopen
  have hfilled : f.order.orderInfo.price ∈ LimitOrderbook.view.filled b :=
    List.mem_map.mpr ⟨f, List.mem_filter.mpr ⟨hf, decide_eq_true hfill⟩, rfl⟩
  -- the last matched price lies between the two
  have hin := hsep.filled hfilled
  obtain ⟨last, hlast⟩ := Option.isSome_iff_exists.mp
    (List.getLast?_isSome.mpr (List.ne_nil_of_mem hin))
  have hbelow := last_noBetter (NoBetter.refl isBuy) hsep.inOrder hlast _ hin
  exact ((hsep.live last hlast _ hlive).trans hbelow).not_strictlyBetter ho hbetter

end Priority

/-- **THE DERIVATIVE AUCTION IS CORRECT**, whatever orders its checks throw out on the way:
    the loop ends and both sides fill the clearing quantity; price priority holds among the
    kept orders of each side that is read in price order, and if both are, what stays open
    does not cross. -/
theorem derivative_fba_match_correct (E : MatchEnv R D) (calculate : D → D → D → D)
    (buys : SideOrders D true) (sells : SideOrders D false) (risk : R) :
    ∃ result s,
      matchLimitOrderbooks E calculate (buildOrderbooks buys sells risk) = some (result, s) ∧
      (s.first.entries.map BookFill.fillQuantity).sum = result.clearingQuantity ∧
      (s.second.entries.map BookFill.fillQuantity).sum = result.clearingQuantity ∧
      Matched buys s.first ∧ Matched sells s.second ∧
      (buys.Sorted → sells.Sorted → ∀ e ∈ s.first.entries, ∀ f ∈ s.second.entries,
        e.isCancelled = false → f.isCancelled = false →
        e.fillQuantity < e.order.fillable → f.fillQuantity < f.order.fillable →
        e.order.orderInfo.price < f.order.orderInfo.price) := by
  obtain ⟨result, s, hmatch⟩ := matchLimitOrderbooks_finishes E buys sells calculate risk
  obtain ⟨ts, hrun, -, -, hquantity, -⟩ := matchBooks_some hmatch
  obtain ⟨hbuy, hsell⟩ := auctionSides_spec E buys sells
  obtain ⟨⟨hb, hs⟩, htb, hts, hsepb, hseps, -, hmax⟩ := run_spec hbuy hsell
    (s := buildOrderbooks buys sells risk) ⟨buys.book_inv false, sells.book_inv false⟩
    (buys.filled_book false) (sells.filled_book false) hrun
  have hequal : s.first.totalQuantity = s.second.totalQuantity := htb.trans hts.symm
  refine ⟨result, s, hmatch, hb.total.symm.trans (hequal.trans hquantity.symm),
    hs.total.symm.trans hquantity.symm, matched_of_separates hb hsepb.of_comap,
    matched_of_separates hs hseps.of_comap, ?_⟩
  intro hbuys hsells e he f hf hkeepe hkeepf hopene hopenf
  have hlivee := price_mem_livePrices he hkeepe hopene.ne
  have hlivef := price_mem_livePrices hf hkeepf hopenf.ne
  rcases hmax with hnil | hnil | ⟨p, p', hno, hp, hp'⟩
  · exact absurd hlivee (List.eq_nil_iff_forall_not_mem.mp hnil _)
  · exact absurd hlivef (List.eq_nil_iff_forall_not_mem.mp hnil _)
  · have hbelow : e.order.orderInfo.price ≤ p := hp _ hlivee hbuys
    have habove : p' ≤ f.order.orderInfo.price := hp' _ hlivef hsells
    exact hbelow.trans_lt ((pricesCross_eq_false.mp hno).trans_le habove)

/-! ## The open notional cap -/

section Cap

/-- The open notional as the two books see it: the start value and what the fills of both
    sides have added. -/
def openNotional (E : MatchEnv R D) (s : AuctionBooks R D) : D :=
  E.currentOpenNotional + s.first.counters.addedOpenNotional +
    s.second.counters.addedOpenNotional

/-- **THE CAP IS ENFORCED** through a whole run, reading decimals as exact rationals:
    after every fill, on whichever side, the open notional is at most the cap, or what it
    was at the start if that was more. Orders may close, flip or self-trade positions. -/
theorem open_notional_within_cap (E : MatchEnv R ℚ) (cap : ℚ)
    (hcap : E.fill.market.openNotionalCap = .capped cap) (buys : SideOrders ℚ true)
    (sells : SideOrders ℚ false) (risk : R) (n : ℕ) :
    ∀ s ∈ (auctionSides E).fillStates n (buildOrderbooks buys sells risk),
      openNotional E s ≤ max cap E.currentOpenNotional :=
  fillStates_within_cap (limitOps_capSpec hcap buys) (limitOps_capSpec hcap sells)
    (CapInv.start ⟨buys.book_inv false, rfl⟩ ⟨sells.book_inv false, rfl⟩
      (MatchState.initial_valid risk) rfl rfl) n

/-- In the sample the buy alone exhausts the cap; the sell is admitted on top of it
    because it flips a long of 1 into a short of 1. -/
theorem open_notional_within_cap_sample :
    ((auctionSides sampleEnv).fillStates 5 sampleBooks).map (openNotional sampleEnv) =
        [20, 20] ∧
      ∀ s ∈ (auctionSides sampleEnv).fillStates 5 sampleBooks,
        openNotional sampleEnv s ≤ max 20 0 :=
  ⟨by decide +kernel, open_notional_within_cap sampleEnv 20 rfl _ _ () 5⟩

end Cap

end ExchangeDerivativeAuction
