import InjectiveCore.ExchangeDerivativeAuctionProofs
import InjectiveCore.ExchangeDerivativeLedgerProofs
import InjectiveCore.ExchangeMarketBookProofs

/-!
# Open interest and side balance of a batch

Matching counts open interest on cached positions, in the order in which fills are made
on the two sides. Settlement then applies the same fills to the stored positions in
another order: all buys before all sells in the auction, the market orders before the
limit orders they met otherwise.

The two agree because both only add signed quantities. Settling a list of fills adds
`exposures` of that list to the positions (`foldl_settles`), and exposures do not depend
on the order of the list. What a book hands to settlement has the exposures of everything
it filled (`restingFills_kept`, `sideFills_exposures`): orders it leaves out had no
fill. So settlement ends at the positions that matching had counted.

- `executeAuction_tracks` and `executeMarketOrders_tracks`: the open interest delta of a
  batch is the growth of the gross position, and the net position is unchanged.
- `openInterest_eq_gross`: stored open interest that is the gross position stays so.
-/

namespace ExchangeOpenInterest

open DecArith MatchLoop TwoQueue GrossExposure ExchangePosition ExchangeFees ExchangeFba
  ExchangeDerivativeFill ExchangeDerivativeLedger ExchangeMatchState ExchangeDerivativeBook
  ExchangeLinkedBooks ExchangeDerivativeAuction ExchangeMarketBook

variable {R D : Type} [DecArith D]

/-! ## Settling positions -/

section Settling

variable {E : MatchEnv R D} {states states' states'' : PositionStates D}

/-- Settlement has moved the positions by the given exposures. -/
structure Settles (E : MatchEnv R D) (states : PositionStates D) (fills : Hash → D)
    (states' : PositionStates D) : Prop where
  nonneg : NonnegQuantities states'
  quantity : readQuantity states' E.storedQuantity =
    readQuantity states E.storedQuantity + fills

theorem Settles.refl (h : NonnegQuantities states) : Settles E states 0 states :=
  ⟨h, (add_zero _).symm⟩

theorem Settles.trans {x y : Hash → D} (h : Settles E states x states')
    (h' : Settles E states' y states'') : Settles E states (x + y) states'' :=
  ⟨h'.nonneg, by rw [h'.quantity, h.quantity, add_assoc]⟩

theorem fillPositionStateCache_signed (E : MatchEnv R D) (h : NonnegQuantities states)
    (s : Hash) (isBuy : Bool) :
    (fillPositionStateCache E.fill states s isBuy).getSignedPositionQuantity =
        readQuantity states E.storedQuantity s ∧
      0 ≤ (fillPositionStateCache E.fill states s isBuy).quantity := by
  rw [fillPositionStateCache.eq_def, readQuantity]
  cases hs : states s with
  | some p => exact ⟨rfl, h s p hs⟩
  | none =>
    rw [MatchEnv.storedQuantity]
    cases hp : E.fill.getPosition s with
    | some p => exact ⟨rfl, E.quantity_nonneg s p hp⟩
    | none =>
      refine ⟨?_, le_refl 0⟩
      cases isBuy
      · exact neg_zero
      · rfl

variable {q : D}

theorem signed_applyPositionDelta? {p : Position D} (hp : 0 ≤ p.quantity) (isBuy : Bool)
    (hq : 0 ≤ q) (margin price fee : D) :
    let u := p.applyPositionDelta? (if 0 < q then some ⟨isBuy, q, margin, price⟩ else none)
      fee
    u.position.getSignedPositionQuantity =
        p.getSignedPositionQuantity + signedFill isBuy q ∧
      0 ≤ u.position.quantity := by
  intro u
  by_cases hpos : 0 < q
  · have hu : u = p.applyPositionDelta ⟨isBuy, q, margin, price⟩ fee := by
      simp only [u, if_pos hpos, Position.applyPositionDelta?]
    rw [hu]
    exact signed_applyPositionDelta p ⟨isBuy, q, margin, price⟩ fee hp hq
  · have hzero : q = 0 := le_antisymm (not_lt.mp hpos) hq
    have hu : u.position = p := by
      simp only [u, if_neg hpos, Position.applyPositionDelta?]
    rw [hu, hzero]
    refine ⟨?_, hp⟩
    cases isBuy
    · show _ = _ + -0
      rw [neg_zero, add_zero]
    · exact (add_zero _).symm

theorem balanceChange_position (env : FillEnv D) (s : Hash) (u : PositionUpdate D)
    (isReduceOnly : Bool) (traderFee feeCharge available : D) :
    let p := (balanceChange env s u isReduceOnly traderFee feeCharge available).position
    p.getSignedPositionQuantity = u.position.getSignedPositionQuantity ∧
      p.quantity = u.position.quantity := by
  intro p
  have hsame : p.isLong = u.position.isLong ∧ p.quantity = u.position.quantity := by
    by_cases hcross : env.isCrossMargin s = true
    · simp only [p, balanceChange, if_pos hcross, and_self]
    · simp only [p, balanceChange, if_neg hcross]
      exact (adjustPositionMarginIfNecessary_spec _ _ _ _).2.2
  refine ⟨?_, hsame.2⟩
  rw [Position.getSignedPositionQuantity, Position.getSignedPositionQuantity, hsame.1, hsame.2]

/-- A fill moves the position of its subaccount by the signed quantity. -/
theorem balanceChange_settles (h : NonnegQuantities states) (s : Hash) (isLong isBuy : Bool)
    (hq : 0 ≤ q) (margin price fee : D) (isReduceOnly : Bool)
    (traderFee feeCharge available : D) :
    Settles E states (Pi.single s (signedFill isBuy q)) (Function.update states s
      (some (balanceChange E.fill s
        ((fillPositionStateCache E.fill states s isLong).applyPositionDelta?
          (if 0 < q then some ⟨isBuy, q, margin, price⟩ else none) fee)
        isReduceOnly traderFee feeCharge available).position)) := by
  obtain ⟨hsigned, hnonneg⟩ := fillPositionStateCache_signed E h s isLong
  obtain ⟨hfill, hq'⟩ := signed_applyPositionDelta? hnonneg isBuy hq margin price fee
  refine ⟨h.update s ?_, ?_⟩
  · rw [(balanceChange_position ..).2]
    exact hq'
  · rw [readQuantity_update, (balanceChange_position ..).1, hfill, hsigned]
    exact update_add_single _ _ _

theorem limitFill_settles (h : NonnegQuantities states)
    (isBuy isTransient isLiquidation : Bool) (order : DerivativeLimitOrder D) (hq : 0 ≤ q)
    (clearingPrice : Option D) :
    Settles E states (Pi.single order.orderInfo.subaccountID (signedFill isBuy q))
      (applyPositionDeltaAndGetDerivativeLimitOrderStateExpansion E.fill states isBuy
        isTransient isLiquidation order q clearingPrice).2 :=
  balanceChange_settles h _ _ _ hq _ _ _ _ _ _ _

/-- **SETTLING A LIST** adds its exposures, if settling each of its elements does. -/
theorem foldl_settles {α : Type} {step : PositionStates D → α → PositionStates D}
    {trade : α → Hash × D} {as : List α}
    (hstep : ∀ st, NonnegQuantities st → ∀ a ∈ as,
      Settles E st (Pi.single (trade a).1 (trade a).2) (step st a))
    (h : NonnegQuantities states) :
    Settles E states (exposures (as.map trade)) (as.foldl step states) := by
  induction as generalizing states with
  | nil => exact Settles.refl h
  | cons a rest ih =>
    have ha := hstep states h a List.mem_cons_self
    have hrest := ih (fun st hst x hx => hstep st hst x (List.mem_cons_of_mem _ hx)) ha.nonneg
    rw [List.map_cons, exposures_cons]
    exact ha.trans hrest

omit [DecArith D] in
theorem settleAll_positions {α : Type}
    (settle : PositionStates D → α → DerivativeOrderStateExpansion D × PositionStates D)
    (states : PositionStates D) (as : List α) :
    (settleAll settle states as).2 = as.foldl (fun st a => (settle st a).2) states := by
  induction as generalizing states with
  | nil => rfl
  | cons a rest ih => exact ih (settle states a).2

section Settle

variable (env : FillEnv D)
  (clearingPrice : D)
  (isBuy : Bool)
  (fills : List (LimitFill D))
  (acc : DerivativeMatchingExpansionData D × PositionStates D)

theorem settleFills_positions :
    (fills.foldl (settleFill env clearingPrice isBuy) acc).2 =
      fills.foldl (fun st f =>
        (applyPositionDeltaAndGetDerivativeLimitOrderStateExpansion env st isBuy
          f.isTransient false f.order f.fillQuantity (some clearingPrice)).2) acc.2 :=
  (List.foldl_hom Prod.snd (fun _ _ => rfl)).symm

theorem settleFills_openInterest :
    (fills.foldl (settleFill env clearingPrice isBuy) acc).1.openInterestDelta =
      acc.1.openInterestDelta := by
  induction fills generalizing acc with
  | nil => rfl
  | cons f rest ih =>
    refine (ih (settleFill env clearingPrice isBuy acc f)).trans ?_
    simp only [settleFill, DerivativeMatchingExpansionData.addNewRestingOrder]
    split
    · cases isBuy <;> cases f.isTransient <;> rfl
    · cases isBuy <;> cases f.isTransient <;> rfl

end Settle

end Settling

/-! ## What the books hand to settlement -/

/-- `NewMergedDerivativeOrderbookFills`, as `Next` runs through it: the better price
    first, resting before transient at the same price. -/
def mergedOrderbookFills (isBuy : Bool) (transientFills restingFills : List (BookFill D)) :
    List (LimitFill D) :=
  List.merge (restingFills.map (fun e => ⟨e.order, e.fillQuantity, false⟩))
    (transientFills.map (fun e => ⟨e.order, e.fillQuantity, true⟩))
    (fun resting transient =>
      if isBuy then transient.order.orderInfo.price ≤ resting.order.orderInfo.price
      else resting.order.orderInfo.price ≤ transient.order.orderInfo.price)

/-- What `processSideOrderbookFills` reads of a limit order book. -/
def sideFills (isBuy : Bool) (b : LimitOrderbook D) : SideFills D :=
  { fills := mergedOrderbookFills isBuy b.getTransientOrderbookFills
      b.getRestingOrderbookFills
    restingOrderbookCancels := b.restingOrdersToCancel
    transientOrderbookCancels := b.transientOrdersToCancel
    partialCancelOrders := b.partialCancelOrders
    openInterestDelta := b.counters.openInterestDelta }

/-- What `processMarketOrderSide` reads of a market order book and, if there is one, the
    limit order book it was matched against. -/
def marketSideFills (marketOrderbook : MarketOrderbook D)
    (limitOrderbook : Option (LimitOrderbook D)) : MarketSideFills D :=
  { orders := marketOrderbook.orders.map MarketFill.core
    clearingPrice := limitOrderbook.bind (fun b =>
      if marketOrderbook.totalQuantity = 0 then none
      else some (quo b.notional marketOrderbook.totalQuantity))
    restingFills := limitOrderbook.elim [] (fun b =>
      b.getRestingOrderbookFills.map (fun e => ⟨e.order, e.fillQuantity, false⟩))
    restingOrderbookCancels := limitOrderbook.elim [] (·.restingOrdersToCancel)
    openInterestDelta := marketOrderbook.counters.openInterestDelta +
      limitOrderbook.elim 0 (·.counters.openInterestDelta) }

/-- The subaccount and the signed quantity of a settled limit fill. -/
def LimitFill.trade (isBuy : Bool) (f : LimitFill D) : Hash × D :=
  (f.order.orderInfo.subaccountID, signedFill isBuy f.fillQuantity)

section BookFills

variable {isBuy : Bool} {side : SideOrders D isBuy} {b : LimitOrderbook D}

theorem signedFills_exposures {α : Type} (isBuy : Bool) (s : α → Hash) (q : α → D)
    (as : List α) :
    signedFills isBuy (exposures (as.map (fun a => (s a, q a)))) =
      exposures (as.map (fun a => (s a, signedFill isBuy (q a)))) := by
  cases isBuy
  · show -exposures _ = _
    rw [← exposures_neg, List.map_map]
    rfl
  · rfl

/-- The exposures of a list of orders with their fills. -/
def bookExposures (es : List (BookFill D)) : Hash → D :=
  exposures (es.map (fun e => (e.order.orderInfo.subaccountID, e.fillQuantity)))

/-- What a book leaves out of the fills it hands over was cancelled without a fill. -/
theorem kept_fills (h : LimitOrderbook.Inv side b) {es fills : List (BookFill D)}
    (hes : ∀ e ∈ es, e ∈ b.entries)
    (hfills : fills = es ∨ fills = es.filter (fun e => e.order.orderHash ∉ b.orderCancelHashes)) :
    (∀ e ∈ fills, 0 ≤ e.fillQuantity) ∧ bookExposures fills = bookExposures es := by
  rcases hfills with rfl | rfl
  · exact ⟨fun e he => (h.bounds e (hes e he)).1, rfl⟩
  · refine ⟨fun e he => (h.bounds e (hes e (List.mem_of_mem_filter he))).1,
      exposures_filter ?_⟩
    intro e he hout
    exact (h.cancelled e (hes e he) (by simpa using hout)).2

theorem restingFills_kept (h : LimitOrderbook.Inv side b) :
    (∀ e ∈ b.getRestingOrderbookFills, 0 ≤ e.fillQuantity) ∧
      bookExposures b.getRestingOrderbookFills = bookExposures b.queue.fetched.reverse :=
  kept_fills h (fun _ he => List.mem_append_left _ (List.mem_append_left _ he)) (ite_eq_or_eq _ _ _)

theorem transientFills_kept (h : LimitOrderbook.Inv side b) :
    (∀ e ∈ b.getTransientOrderbookFills, 0 ≤ e.fillQuantity) ∧
      bookExposures b.getTransientOrderbookFills =
        bookExposures (b.queue.passed ++ b.queue.pending) :=
  kept_fills h (fun _ he => List.mem_append_right _ he) (ite_eq_or_eq _ _ _)

theorem limitFills_eq (b : LimitOrderbook D) :
    limitFills b = bookExposures b.queue.fetched.reverse +
      bookExposures (b.queue.passed ++ b.queue.pending) := by
  have hunfetched : exposures ((b.queue.iterator.map reader.load).map
      (fun e : BookFill D => (e.order.orderInfo.subaccountID, e.fillQuantity))) = 0 := by
    refine List.sum_eq_zero ?_
    intro x hx
    rw [List.map_map, List.map_map] at hx
    obtain ⟨o, -, rfl⟩ := List.mem_map.mp hx
    exact Pi.single_zero _
  rw [limitFills, LimitOrderbook.entries, Queue.entries, List.map_append, List.map_append,
    exposures_append, exposures_append, hunfetched, add_zero]
  rfl

theorem mergedOrderbookFills_perm (isBuy : Bool) (transientFills restingFills : List (BookFill D)) :
    (mergedOrderbookFills isBuy transientFills restingFills).Perm
      (restingFills.map (fun e => ⟨e.order, e.fillQuantity, false⟩) ++
        transientFills.map (fun e => ⟨e.order, e.fillQuantity, true⟩)) :=
  List.merge_perm_append _

/-- **WHAT AN AUCTION SIDE SETTLES** has the exposures of everything its book filled. -/
theorem sideFills_exposures (h : LimitOrderbook.Inv side b) :
    exposures ((sideFills isBuy b).fills.map (LimitFill.trade isBuy)) =
      signedFills isBuy (limitFills b) := by
  have hperm := (mergedOrderbookFills_perm isBuy b.getTransientOrderbookFills
    b.getRestingOrderbookFills).map (fun f => (f.order.orderInfo.subaccountID, f.fillQuantity))
  have hmerged := exposures_perm hperm
  rw [List.map_append, exposures_append, List.map_map, List.map_map] at hmerged
  have hsum : exposures ((sideFills isBuy b).fills.map
      (fun f => (f.order.orderInfo.subaccountID, f.fillQuantity))) = limitFills b := by
    rw [limitFills_eq, ← (restingFills_kept h).2, ← (transientFills_kept h).2]
    exact hmerged
  rw [← hsum, signedFills_exposures]
  rfl

theorem sideFills_nonneg (h : LimitOrderbook.Inv side b) :
    ∀ f ∈ (sideFills isBuy b).fills, 0 ≤ f.fillQuantity := by
  intro f hf
  have hmem := (mergedOrderbookFills_perm isBuy b.getTransientOrderbookFills
    b.getRestingOrderbookFills).subset hf
  rcases List.mem_append.mp hmem with hin | hin
  · obtain ⟨e, he, rfl⟩ := List.mem_map.mp hin
    exact (restingFills_kept h).1 e he
  · obtain ⟨e, he, rfl⟩ := List.mem_map.mp hin
    exact (transientFills_kept h).1 e he

end BookFills

/-! ## The auction -/

section Auction

/-- `Execute` of the derivative batch auction executor: without orders on a side nothing
    is matched, and the orders of the other side are settled without a fill. -/
def executeAuction (E : MatchEnv R D) (strategy : DerivativeClearingPriceStrategy D)
    (buys : SideOrders D true) (sells : SideOrders D false) (risk : R)
    (buyOrdersToCancel sellOrdersToCancel : List (DerivativeLimitOrder D)) :
    Option (DerivativeBatchExecutionData D) :=
  let settle := fun (clearingPrice : D) (buy sell : Option (LimitOrderbook D))
      (states : PositionStates D) =>
    processMatchResult E.fill clearingPrice (buy.map (sideFills true))
      (sell.map (sideFills false)) states buyOrdersToCancel sellOrdersToCancel
  match LimitOrderbook.newLimitOrderbook buys.resting buys.transient true false,
      LimitOrderbook.newLimitOrderbook sells.resting sells.transient false false with
  | some buy, some sell =>
    (matchLimitOrderbooks E strategy.calculate ⟨buy, sell, .initial risk⟩).map
      (fun r => settle r.1.clearingPrice (some r.2.first) (some r.2.second)
        r.2.state.positionStates)
  | buy, sell => some (settle (emptyMatchResult (D := D)).clearingPrice buy sell
      (fun _ => none))

variable {E : MatchEnv R D} {buys : SideOrders D true} {sells : SideOrders D false}

/-- The quantity the book of a side has filled, nothing if there is no book. -/
def fillsOf (b : Option (LimitOrderbook D)) : Hash → D := b.elim 0 limitFills

/-- The open interest delta of the book of a side. -/
def openInterestOf (b : Option (LimitOrderbook D)) : D :=
  b.elim 0 (·.counters.openInterestDelta)

/-- Settling one side moves the positions by everything its book filled and adds the
    book's open interest. -/
theorem processSideOrderbookFills_settles {isBuy : Bool} {side : SideOrders D isBuy}
    {b : Option (LimitOrderbook D)} (hb : ∀ b' ∈ b, LimitOrderbook.Inv side b')
    (clearingPrice : D) (acc : DerivativeMatchingExpansionData D × PositionStates D)
    (h : NonnegQuantities acc.2) :
    let r := b.elim acc (fun b' =>
      processSideOrderbookFills E.fill clearingPrice isBuy (sideFills isBuy b') acc)
    Settles E acc.2 (signedFills isBuy (fillsOf b)) r.2 ∧
      r.1.openInterestDelta = acc.1.openInterestDelta + openInterestOf b := by
  cases b with
  | none =>
    refine ⟨?_, (add_zero _).symm⟩
    show Settles E acc.2 (signedFills isBuy 0) acc.2
    rw [signedFills_zero]
    exact Settles.refl h
  | some b =>
    have hb := hb b rfl
    constructor
    · show Settles E acc.2 _ (List.foldl (settleFill E.fill clearingPrice isBuy) _ _).2
      rw [settleFills_positions]
      refine (sideFills_exposures hb) ▸ foldl_settles ?_ h
      intro st hst f hf
      exact limitFill_settles hst isBuy f.isTransient false f.order (sideFills_nonneg hb f hf)
        (some clearingPrice)
    · have hfold := settleFills_openInterest E.fill clearingPrice isBuy
        (sideFills isBuy b).fills
        ({ acc.1 with partialCancelOrders :=
            acc.1.partialCancelOrders ++ (sideFills isBuy b).partialCancelOrders }, acc.2)
      refine Eq.trans ?_ (congrArg (· + b.counters.openInterestDelta) hfold)
      cases isBuy
      · rfl
      · rfl

theorem processOrderbookFills_settles {buy sell : Option (LimitOrderbook D)}
    (hbuy : ∀ b ∈ buy, LimitOrderbook.Inv buys b)
    (hsell : ∀ b ∈ sell, LimitOrderbook.Inv sells b) (clearingPrice : D)
    {states : PositionStates D} (h : NonnegQuantities states) :
    let r := processOrderbookFills E.fill clearingPrice (buy.map (sideFills true))
      (sell.map (sideFills false)) states
    Settles E states (signedFills true (fillsOf buy) + signedFills false (fillsOf sell))
        r.2 ∧
      r.1.openInterestDelta = openInterestOf buy + openInterestOf sell := by
  -- the sells are settled on what the buys left
  obtain ⟨hpos₁, hoi₁⟩ := processSideOrderbookFills_settles (E := E) hbuy clearingPrice
    (newDerivativeMatchingExpansionData, states) h
  obtain ⟨hpos₂, hoi₂⟩ := processSideOrderbookFills_settles (E := E) hsell clearingPrice _
    hpos₁.nonneg
  rw [hoi₁] at hoi₂
  have hoi := hoi₂.trans (congrArg (· + openInterestOf sell) (zero_add _))
  cases buy <;> cases sell <;> exact ⟨hpos₁.trans hpos₂, hoi⟩

/-- The open interest delta of a batch is the growth of the gross position, and the net
    position is unchanged. -/
structure TracksPositions (E : MatchEnv R D) (batch : DerivativeBatchExecutionData D) :
    Prop where
  openInterest : batch.openInterestDelta =
    gross (readQuantity batch.positions E.storedQuantity) - gross E.storedQuantity
  netQuantity : net (readQuantity batch.positions E.storedQuantity) = net E.storedQuantity

theorem matchLimitOrderbooks_tracked {calculate : D → D → D → D} {risk : R}
    {result : MatchResult D} {s : AuctionBooks R D}
    (h : matchLimitOrderbooks E calculate (buildOrderbooks buys sells risk) = some (result, s)) :
    Tracked E (limitOps E) (limitOps E) true (LimitOrderbook.Inv buys)
        (LimitOrderbook.Inv sells) limitFills limitFills E.storedQuantity s ∧
      net (s.state.matchedQuantity E) = net E.storedQuantity := by
  obtain ⟨ts, hrun, -⟩ := matchBooks_some h
  have hstart : Tracked E (limitOps E) (limitOps E) true (LimitOrderbook.Inv buys)
      (LimitOrderbook.Inv sells) limitFills limitFills E.storedQuantity
      (buildOrderbooks buys sells risk) :=
    Tracked.start (buys.book_inv false) (sells.book_inv false)
      (MatchState.initial_valid risk) rfl rfl (limitFills_book buys false)
      (limitFills_book sells false) rfl rfl
  have htracked := run_tracked (limitOps_positionSpec E buys) (limitOps_positionSpec E sells)
    hstart hrun
  refine ⟨htracked, htracked.net_eq ?_⟩
  obtain ⟨hbuy, hsell⟩ := auctionSides_spec E buys sells
  obtain ⟨-, htotal₁, htotal₂, -⟩ := run_spec hbuy hsell
    (s := buildOrderbooks buys sells risk) ⟨buys.book_inv false, sells.book_inv false⟩
    (buys.filled_book false) (sells.filled_book false) hrun
  rw [net_limitFills htracked.first, net_limitFills htracked.second]
  exact htotal₁.trans htotal₂.symm

/-- Settling two books tracks positions if the books have counted what they filled. -/
theorem processMatchResult_tracks (buys : SideOrders D true) (sells : SideOrders D false)
    {buy sell : Option (LimitOrderbook D)}
    (hbuy : ∀ b ∈ buy, LimitOrderbook.Inv buys b)
    (hsell : ∀ b ∈ sell, LimitOrderbook.Inv sells b) {states : PositionStates D}
    (h : NonnegQuantities states) {v : Hash → D}
    (hv : readQuantity states E.storedQuantity +
      (signedFills true (fillsOf buy) + signedFills false (fillsOf sell)) = v)
    (hoi : openInterestOf buy + openInterestOf sell = gross v - gross E.storedQuantity)
    (hnet : net v = net E.storedQuantity) (clearingPrice : D)
    (buyOrdersToCancel sellOrdersToCancel : List (DerivativeLimitOrder D)) :
    TracksPositions E (processMatchResult E.fill clearingPrice (buy.map (sideFills true))
      (sell.map (sideFills false)) states buyOrdersToCancel sellOrdersToCancel) := by
  obtain ⟨hpos, hcount⟩ := processOrderbookFills_settles (E := E) hbuy hsell clearingPrice h
  have hfinal : readQuantity (processOrderbookFills E.fill clearingPrice
      (buy.map (sideFills true)) (sell.map (sideFills false)) states).2
        E.storedQuantity = v := hpos.quantity.trans hv
  constructor
  · refine hcount.trans (hoi.trans ?_)
    rw [← hfinal]
    rfl
  · refine Eq.trans ?_ hnet
    rw [← hfinal]
    rfl

/-- **THE AUCTION TRACKS POSITIONS**, whatever it matches. -/
theorem executeAuction_tracks (E : MatchEnv R D)
    (strategy : DerivativeClearingPriceStrategy D) (buys : SideOrders D true)
    (sells : SideOrders D false) (risk : R)
    (buyOrdersToCancel sellOrdersToCancel : List (DerivativeLimitOrder D)) :
    ∃ batch, executeAuction E strategy buys sells risk buyOrdersToCancel
      sellOrdersToCancel = some batch ∧ TracksPositions E batch := by
  have hbooks : ∀ {isBuy : Bool} {side : SideOrders D isBuy} {b : Option (LimitOrderbook D)},
      LimitOrderbook.newLimitOrderbook side.resting side.transient isBuy false = b →
      (∀ b' ∈ b, LimitOrderbook.Inv side b') ∧ fillsOf b = 0 ∧ openInterestOf b = 0 := by
    intro isBuy side b hb
    cases b with
    | none => exact ⟨fun _ hb' => (nomatch hb'), rfl, rfl⟩
    | some b =>
      rw [newLimitOrderbook_some side hb]
      refine ⟨?_, limitFills_book side false, rfl⟩
      intro b' hb'
      rw [← Option.some.inj hb']
      exact side.book_inv false
  obtain ⟨buy, hbuy⟩ : ∃ buy, LimitOrderbook.newLimitOrderbook buys.resting buys.transient
    true false = buy := ⟨_, rfl⟩
  obtain ⟨sell, hsell⟩ : ∃ sell, LimitOrderbook.newLimitOrderbook sells.resting
    sells.transient false false = sell := ⟨_, rfl⟩
  obtain ⟨hbi, hbf, hbo⟩ := hbooks hbuy
  obtain ⟨hsi, hsf, hso⟩ := hbooks hsell
  -- books that are not matched are settled at the stored positions
  have hidle : TracksPositions E (processMatchResult E.fill
      (emptyMatchResult (D := D)).clearingPrice (buy.map (sideFills true))
      (sell.map (sideFills false)) (fun _ => none) buyOrdersToCancel
      sellOrdersToCancel) := by
    refine processMatchResult_tracks buys sells hbi hsi NonnegQuantities.empty
      (v := E.storedQuantity) ?_ ?_ rfl _ _ _
    · rw [hbf, hsf]
      show E.storedQuantity + (0 + -0) = _
      rw [neg_zero, add_zero, add_zero]
    · rw [hbo, hso, add_zero, sub_self]
  simp only [executeAuction, hbuy, hsell]
  cases buy with
  | none => exact ⟨_, rfl, hidle⟩
  | some b =>
    cases sell with
    | none => exact ⟨_, rfl, hidle⟩
    | some a =>
      obtain ⟨result, s, hmatch⟩ :=
        matchLimitOrderbooks_finishes E buys sells strategy.calculate risk
      obtain ⟨htracked, hnet⟩ := matchLimitOrderbooks_tracked hmatch
      have hbatch : TracksPositions E (processMatchResult E.fill result.clearingPrice
          ((some s.first).map (sideFills true)) ((some s.second).map (sideFills false))
          s.state.positionStates buyOrdersToCancel sellOrdersToCancel) := by
        refine processMatchResult_tracks buys sells ?_ ?_ htracked.valid.states
          (v := s.state.matchedQuantity E) ?_ ?_ hnet _ _ _
        · intro b' hb'
          rw [← Option.some.inj hb']
          exact htracked.first
        · intro b' hb'
          rw [← Option.some.inj hb']
          exact htracked.second
        · rw [htracked.matched, add_assoc]
          exact congrArg (· + _) htracked.settled
        · exact htracked.openInterest
      rw [buildOrderbooks, ← newLimitOrderbook_some buys hbuy,
        ← newLimitOrderbook_some sells hsell] at hmatch
      exact ⟨_, congrArg (Option.map _) hmatch, hbatch⟩

end Auction

/-! ## Market orders -/

section MarketOrders

/-- The orders of the limit book that market orders are matched against. -/
def restingOnly {isBuy : Bool} (side : SideOrders D isBuy) : SideOrders D isBuy where
  resting := side.resting
  transient := []
  fillable_nonneg o ho :=
    side.fillable_nonneg o (List.mem_append_left _ (List.append_nil side.resting ▸ ho))
  direction o ho :=
    side.direction o (List.mem_append_left _ (List.append_nil side.resting ▸ ho))
  hashes_nodup := by
    have h := side.hashes_nodup
    rw [List.map_append] at h
    rw [List.append_nil]
    exact h.of_append_left

/-- Whether a market order and a limit order cross. -/
def marketCrosses (isMarketBuy : Bool) (marketPrice limitPrice : D) : Bool :=
  if isMarketBuy then pricesCross marketPrice limitPrice
  else pricesCross limitPrice marketPrice

/-- `MatchDerivativeOrderbooks`: the market order book is peeked and filled first. -/
def matchDerivativeOrderbooks (E : MatchEnv R D) (isMarketBuy : Bool)
    (s : Linked R D (MarketOrderbook D) (LimitOrderbook D)) :
    Option (Linked R D (MarketOrderbook D) (LimitOrderbook D)) :=
  ((linkedSides (marketOps E) (limitOps E) (marketCrosses isMarketBuy)).run
    (s.first.orders.length + s.second.entries.length + 1) s).map Prod.snd

/-- The unfilled rest of the market orders is taken out of the last-look OLR, unless a
    check already did so. -/
def decrementUnfilled (E : MatchEnv R D) (c : MatchState R D)
    (orders : List (MarketFill D)) : MatchState R D :=
  orders.foldl (fun c e =>
    if e.remaining ≠ 0 ∧ e.olrDecremented = false then
      decrementLastLookOLR E c (.market e.order) e.remaining
    else c) c

/-- `processMarketOrderSide` after matching, on the shared state. -/
def settleMarketSide (E : MatchEnv R D) (isMarketBuy isLiquidation : Bool)
    (marketOrderbook : MarketOrderbook D) (limitOrderbook : Option (LimitOrderbook D))
    (d : DerivativeMarketOrderExpansionData D) (c : MatchState R D) :
    DerivativeMarketOrderExpansionData D × MatchState R D :=
  let r := processMarketOrderSide E.fill isMarketBuy isLiquidation
    (marketSideFills marketOrderbook limitOrderbook) (d, c.positionStates)
  (r.1, { decrementUnfilled E c marketOrderbook.orders with positionStates := r.2 })

/-- `processMarketOrderSide`. -/
def executeMarketSide (E : MatchEnv R D) (isMarketBuy isLiquidation : Bool)
    (marketOrderbook : Option (MarketOrderbook D))
    (limitOrderbook : Option (LimitOrderbook D))
    (acc : DerivativeMarketOrderExpansionData D × MatchState R D) :
    Option (DerivativeMarketOrderExpansionData D × MatchState R D) :=
  match marketOrderbook, limitOrderbook with
  | none, _ => some acc
  | some market, none =>
    some (settleMarketSide E isMarketBuy isLiquidation market none acc.1 acc.2)
  | some market, some limit =>
    (matchDerivativeOrderbooks E isMarketBuy ⟨market, limit, acc.2⟩).map (fun s =>
      settleMarketSide E isMarketBuy isLiquidation s.first (some s.second) acc.1 s.state)

/-- `Execute` of the derivative market order executor: market sells against limit buys,
    then market buys against limit sells, on the same positions. -/
def executeMarketOrders (E : MatchEnv R D) (isLiquidation : Bool)
    (marketBuys : MarketOrders D true) (marketSells : MarketOrders D false)
    (limitBuys : SideOrders D true) (limitSells : SideOrders D false) (risk : R) :
    Option (DerivativeBatchExecutionData D) :=
  ((executeMarketSide E false isLiquidation
      (MarketOrderbook.newDerivativeMarketOrderbook marketSells.orders false isLiquidation)
      (LimitOrderbook.newLimitOrderbook limitBuys.resting [] true isLiquidation)
      (newDerivativeMarketOrderExpansionData, .initial risk)).bind
    (executeMarketSide E true isLiquidation
      (MarketOrderbook.newDerivativeMarketOrderbook marketBuys.orders true isLiquidation)
      (LimitOrderbook.newLimitOrderbook limitSells.resting [] false isLiquidation))).map
    (fun acc => acc.1.getMarketDerivativeBatchExecutionData E.fill.market
      E.fill.isCrossMargin acc.2.positionStates)

variable {E : MatchEnv R D} {isMarketBuy : Bool} {market : MarketOrders D isMarketBuy}
  {limit : SideOrders D (!isMarketBuy)} {v : Hash → D}

/-- Between two phases nothing is in flight: cached and settled positions agree. -/
structure Settled (E : MatchEnv R D) (v : Hash → D) (c : MatchState R D) : Prop where
  valid : c.Valid
  settled : c.settledQuantity E = v
  matched : c.matchedQuantity E = v

theorem decrementUnfilled_positions (E : MatchEnv R D) (c : MatchState R D)
    (orders : List (MarketFill D)) :
    (decrementUnfilled E c orders).positionCache = c.positionCache := by
  induction orders generalizing c with
  | nil => rfl
  | cons e rest ih =>
    refine (ih _).trans ?_
    dsimp only
    split
    · rfl
    · rfl

theorem marketResults_settles {b : MarketOrderbook D} (hb : MarketOrderbook.Inv market b)
    {clearingPrice : Option D} (hnone : clearingPrice = none → b.totalQuantity = 0)
    (rate multiplier : D) {states : PositionStates D} (h : NonnegQuantities states) :
    Settles E states (signedFills isMarketBuy (marketFills b))
      (processDerivativeMarketOrderbookMatchingResults E.fill clearingPrice rate multiplier
        states (b.orders.map MarketFill.core)).2 := by
  have hfills : signedFills isMarketBuy (marketFills b) =
      exposures ((b.orders.map MarketFill.core).map
        (fun o => (o.1.orderInfo.subaccountID, signedFill isMarketBuy o.2))) := by
    rw [marketFills, signedFills_exposures, List.map_map]
    rfl
  rw [hfills, processDerivativeMarketOrderbookMatchingResults, settleAll_positions]
  refine foldl_settles ?_ h
  intro st hst o ho
  obtain ⟨e, he, rfl⟩ := List.mem_map.mp ho
  have hq := (hb.bounds e he).1
  have hdirection : e.order.orderType.isBuy = isMarketBuy :=
    market.direction e.order (hb.orders ▸ List.mem_map_of_mem he)
  cases clearingPrice with
  | some price =>
    show Settles E st (Pi.single e.order.orderInfo.subaccountID
      (signedFill isMarketBuy e.fillQuantity)) _
    rw [← hdirection]
    exact balanceChange_settles hst _ _ _ hq _ _ _ _ _ _ _
  | none =>
    -- nothing was filled, so this order was not
    have hzero : e.fillQuantity = 0 := by
      refine le_antisymm ?_ hq
      rw [← hnone rfl, hb.total]
      refine List.single_le_sum ?_ _ (List.mem_map_of_mem he)
      intro x hx
      obtain ⟨e', he', rfl⟩ := List.mem_map.mp hx
      exact (hb.bounds e' he').1
    have htrade : (Pi.single e.order.orderInfo.subaccountID
        (signedFill isMarketBuy e.fillQuantity) : Hash → D) = 0 := by
      rw [hzero]
      cases isMarketBuy
      · show Pi.single _ (-0) = 0
        rw [neg_zero, Pi.single_zero]
      · exact Pi.single_zero _
    show Settles E st (Pi.single e.order.orderInfo.subaccountID
      (signedFill isMarketBuy e.fillQuantity)) st
    rw [htrade]
    exact Settles.refl hst

theorem restingResults_settles {isBuy : Bool} {side : SideOrders D isBuy}
    {b : LimitOrderbook D} (hb : LimitOrderbook.Inv (restingOnly side) b)
    (isLiquidation : Bool) {states : PositionStates D} (h : NonnegQuantities states) :
    Settles E states (signedFills isBuy (limitFills b))
      (processRestingDerivativeLimitOrderbookFills E.fill isBuy isLiquidation none states
        (b.getRestingOrderbookFills.map (fun e => ⟨e.order, e.fillQuantity, false⟩))).2 := by
  have hempty : b.queue.passed ++ b.queue.pending = [] := List.map_eq_nil_iff.mp hb.transient
  have hfills : signedFills isBuy (limitFills b) =
      exposures ((b.getRestingOrderbookFills.map
        (fun e => (⟨e.order, e.fillQuantity, false⟩ : LimitFill D))).map
          (LimitFill.trade isBuy)) := by
    rw [limitFills_eq, hempty, ← (restingFills_kept hb).2]
    show signedFills isBuy (_ + 0) = _
    rw [add_zero, bookExposures, signedFills_exposures, List.map_map]
    rfl
  rw [hfills, processRestingDerivativeLimitOrderbookFills, settleAll_positions]
  refine foldl_settles ?_ h
  intro st hst f hf
  obtain ⟨e, he, rfl⟩ := List.mem_map.mp hf
  exact limitFill_settles hst isBuy false isLiquidation e.order ((restingFills_kept hb).1 e he) none

theorem settleMarketSide_openInterest (E : MatchEnv R D) (isMarketBuy isLiquidation : Bool)
    (m : MarketOrderbook D) (b : Option (LimitOrderbook D))
    (d : DerivativeMarketOrderExpansionData D) (c : MatchState R D) :
    (settleMarketSide E isMarketBuy isLiquidation m b d c).1.openInterestDelta =
      d.openInterestDelta + (m.counters.openInterestDelta + openInterestOf b) := by
  cases isMarketBuy
  · rfl
  · rfl

variable {c : MatchState R D}

theorem settleMarketSide_settled (limit : SideOrders D (!isMarketBuy)) {m : MarketOrderbook D}
    {b : Option (LimitOrderbook D)} (hm : MarketOrderbook.Inv market m)
    (hb : ∀ b' ∈ b, LimitOrderbook.Inv (restingOnly limit) b') (hv : c.Valid)
    (hmatched : c.matchedQuantity E = c.settledQuantity E +
      signedFills isMarketBuy (marketFills m) + signedFills (!isMarketBuy) (fillsOf b))
    (hnone : b = none → m.totalQuantity = 0) (isLiquidation : Bool)
    (d : DerivativeMarketOrderExpansionData D) :
    Settled E (c.matchedQuantity E) (settleMarketSide E isMarketBuy isLiquidation m b d c).2 := by
  set r := settleMarketSide E isMarketBuy isLiquidation m b d c
  have hprice : (marketSideFills m b).clearingPrice = none → m.totalQuantity = 0 := by
    intro hcp
    cases b with
    | none => exact hnone rfl
    | some b' =>
      by_contra hne
      simp only [marketSideFills, Option.bind_some, if_neg hne] at hcp
      exact nomatch hcp
  have hmarket := marketResults_settles (E := E) hm hprice
    (if isLiquidation then 0 else E.fill.market.takerFeeRate)
    E.fill.tradeRewardMultiplierConfig.takerPointsMultiplier hv.states
  have hsettles : Settles E c.positionStates (signedFills isMarketBuy (marketFills m) +
      signedFills (!isMarketBuy) (fillsOf b)) r.2.positionStates := by
    refine hmarket.trans ?_
    cases b with
    | none =>
      show Settles E _ (signedFills (!isMarketBuy) 0) _
      rw [signedFills_zero]
      exact Settles.refl hmarket.nonneg
    | some b' => exact restingResults_settles (hb b' rfl) isLiquidation hmarket.nonneg
  have hsettled : r.2.settledQuantity E = c.matchedQuantity E := by
    rw [hmatched, add_assoc]
    exact hsettles.quantity
  have hcache : r.2.positionCache = c.positionCache := decrementUnfilled_positions E c m.orders
  refine ⟨⟨hsettles.nonneg, ?_⟩, hsettled, ?_⟩
  · rw [hcache]
    exact hv.cache
  · -- a cached position reads the same; any other one is settled
    rw [MatchState.matchedQuantity, hcache, hsettled]
    funext s
    simp only [MatchState.matchedQuantity, readQuantity]
    cases c.positionCache s with
    | none => rfl
    | some p => rfl

/-- The matching of a phase ends, at positions that the two books have counted. -/
theorem matchDerivativeOrderbooks_tracked (market : MarketOrders D isMarketBuy)
    (limit : SideOrders D (!isMarketBuy)) (isLiquidation : Bool) (h : Settled E v c) :
    ∃ s, matchDerivativeOrderbooks E isMarketBuy
        ⟨market.book isLiquidation, (restingOnly limit).book isLiquidation, c⟩ = some s ∧
      Tracked E (marketOps E) (limitOps E) isMarketBuy (MarketOrderbook.Inv market)
        (LimitOrderbook.Inv (restingOnly limit)) marketFills limitFills v s ∧
      net (s.state.matchedQuantity E) = net v := by
  have hm := market.book_inv isLiquidation
  have hl := (restingOnly limit).book_inv isLiquidation
  obtain ⟨hmarket, hlimit⟩ := linkedSides_spec (marketCrosses isMarketBuy)
    (marketOps_priceOrdered E market) (limitOps_priceOrdered E (restingOnly limit))
  obtain ⟨⟨ts, s⟩, hrun⟩ := run_finishes hmarket hlimit
    (n := (market.book isLiquidation).orders.length +
      ((restingOnly limit).book isLiquidation).entries.length + 1)
    (s := ⟨market.book isLiquidation, (restingOnly limit).book isLiquidation, c⟩) ⟨hm, hl⟩
    (Nat.lt_succ_of_le (Nat.add_le_add (length_live_le _) Queue.length_livePrices_le))
  have htracked := run_tracked (marketOps_positionSpec E market)
    (limitOps_positionSpec E (restingOnly limit))
    (Tracked.start hm hl h.valid h.settled h.matched (market.marketFills_book isLiquidation)
      (limitFills_book (restingOnly limit) isLiquidation) rfl rfl) hrun
  refine ⟨s, by rw [matchDerivativeOrderbooks, hrun]; rfl, htracked, htracked.net_eq ?_⟩
  obtain ⟨-, htotal₁, htotal₂, -⟩ := run_spec hmarket hlimit
    (s := Linked.mk (market.book isLiquidation) ((restingOnly limit).book isLiquidation) c)
    ⟨hm, hl⟩
    (market.filled_book isLiquidation) ((restingOnly limit).filled_book isLiquidation) hrun
  rw [net_marketFills htracked.first, net_limitFills htracked.second]
  exact htotal₁.trans htotal₂.symm

/-- One phase: the open interest it adds is the growth of the gross position. -/
theorem executeMarketSide_tracks (market : MarketOrders D isMarketBuy)
    (limit : SideOrders D (!isMarketBuy)) (isLiquidation : Bool)
    (d : DerivativeMarketOrderExpansionData D) (h : Settled E v c) :
    ∃ d' c' v', executeMarketSide E isMarketBuy isLiquidation
        (MarketOrderbook.newDerivativeMarketOrderbook market.orders isMarketBuy isLiquidation)
        (LimitOrderbook.newLimitOrderbook limit.resting [] (!isMarketBuy) isLiquidation)
        (d, c) = some (d', c') ∧
      Settled E v' c' ∧ net v' = net v ∧
      d'.openInterestDelta = d.openInterestDelta + (gross v' - gross v) := by
  cases hm : MarketOrderbook.newDerivativeMarketOrderbook market.orders isMarketBuy
    isLiquidation with
  | none =>
    refine ⟨d, c, v, rfl, h, rfl, ?_⟩
    rw [sub_self, add_zero]
  | some m =>
    obtain rfl := MarketOrders.book_of_some hm
    cases hb : LimitOrderbook.newLimitOrderbook limit.resting [] (!isMarketBuy) isLiquidation with
    | none =>
      -- without limit orders nothing is matched
      have hmatched : c.matchedQuantity E = c.settledQuantity E +
          signedFills isMarketBuy (marketFills (market.book isLiquidation)) +
          signedFills (!isMarketBuy) (fillsOf none) := by
        show _ = _ + _ + signedFills _ 0
        rw [h.matched, h.settled, market.marketFills_book, signedFills_zero,
          signedFills_zero, add_zero, add_zero]
      have hsettled := settleMarketSide_settled limit (b := none)
        (market.book_inv isLiquidation) (fun _ hb' => nomatch hb') h.valid hmatched
        (fun _ => rfl) isLiquidation d
      rw [h.matched] at hsettled
      refine ⟨_, _, v, rfl, hsettled, rfl, (settleMarketSide_openInterest ..).trans ?_⟩
      show _ + (0 + 0) = _
      rw [add_zero, sub_self]
    | some b =>
      obtain rfl := newLimitOrderbook_some (restingOnly limit) hb
      obtain ⟨s, hmatch, htracked, hnet⟩ :=
        matchDerivativeOrderbooks_tracked market limit isLiquidation h
      have hsettled := settleMarketSide_settled limit (b := some s.second)
        htracked.first (fun b' hb' => Option.some.inj hb' ▸ htracked.second)
        htracked.valid (by rw [htracked.settled]; exact htracked.matched)
        (fun hnone => nomatch hnone) isLiquidation d
      refine ⟨_, _, _, by rw [executeMarketSide, hmatch]; rfl, hsettled, hnet,
        (settleMarketSide_openInterest ..).trans ?_⟩
      exact congrArg _ htracked.openInterest

/-- **THE MARKET ORDERS TRACK POSITIONS**, over both phases. -/
theorem executeMarketOrders_tracks (E : MatchEnv R D) (isLiquidation : Bool)
    (marketBuys : MarketOrders D true) (marketSells : MarketOrders D false)
    (limitBuys : SideOrders D true) (limitSells : SideOrders D false) (risk : R) :
    ∃ batch, executeMarketOrders E isLiquidation marketBuys marketSells limitBuys limitSells
      risk = some batch ∧ TracksPositions E batch := by
  have hstart : Settled E E.storedQuantity (MatchState.initial risk) :=
    ⟨MatchState.initial_valid risk, rfl, rfl⟩
  obtain ⟨d₁, c₁, v₁, hrun₁, hsettled₁, hnet₁, hoi₁⟩ := executeMarketSide_tracks
    marketSells limitBuys isLiquidation newDerivativeMarketOrderExpansionData hstart
  obtain ⟨d₂, c₂, v₂, hrun₂, hsettled₂, hnet₂, hoi₂⟩ := executeMarketSide_tracks
    marketBuys limitSells isLiquidation d₁ hsettled₁
  have hnew : (newDerivativeMarketOrderExpansionData (D := D)).openInterestDelta = 0 := rfl
  refine ⟨_, (congrArg (fun r => Option.map _ (Option.bind r _)) hrun₁).trans
    (congrArg (Option.map _) hrun₂), ?_, ?_⟩
  · show d₂.openInterestDelta = gross (c₂.settledQuantity E) - _
    rw [hoi₂, hoi₁, hsettled₂.settled, hnew, zero_add, add_comm, sub_add_sub_cancel]
  · show net (c₂.settledQuantity E) = _
    rw [hsettled₂.settled, hnet₂, hnet₁]

end MarketOrders

/-! ## All positions of the market -/

section Positions

/-- The quantity of a position, zero without one. -/
def quantityOf : Option (Position D) → D
  | none => 0
  | some p => p.quantity

/-- The quantity of a long position. -/
def longQuantity : Option (Position D) → D
  | none => 0
  | some p => if p.isLong then p.quantity else 0

/-- The quantity of a short position. -/
def shortQuantity : Option (Position D) → D
  | none => 0
  | some p => if p.isLong then 0 else p.quantity

/-- The position in the store once the positions of a batch have been saved. -/
def finalPosition (E : MatchEnv R D) (batch : DerivativeBatchExecutionData D) (s : Hash) :
    Option (Position D) :=
  (batch.positions s).or (E.fill.getPosition s)

/-- Open interest and side balance of a batch, over all subaccounts. -/
structure BalancesPositions (E : MatchEnv R D) (batch : DerivativeBatchExecutionData D) :
    Prop where
  openInterest : batch.openInterestDelta =
    ∑ s, (|quantityOf (finalPosition E batch s)| - |quantityOf (E.fill.getPosition s)|)
  sides : ∑ s, longQuantity (finalPosition E batch s) -
      ∑ s, shortQuantity (finalPosition E batch s) =
    ∑ s, longQuantity (E.fill.getPosition s) - ∑ s, shortQuantity (E.fill.getPosition s)

theorem abs_signedQuantity (p : Option (Position D)) :
    |signedQuantity p| = |quantityOf p| := by
  cases p with
  | none => rfl
  | some p =>
    simp only [signedQuantity, quantityOf, Position.getSignedPositionQuantity]
    split
    · rfl
    · exact abs_neg _

theorem signedQuantity_eq (p : Option (Position D)) :
    signedQuantity p = longQuantity p - shortQuantity p := by
  cases p with
  | none => exact (sub_zero 0).symm
  | some p =>
    simp only [signedQuantity, longQuantity, shortQuantity, Position.getSignedPositionQuantity]
    split
    · exact (sub_zero _).symm
    · exact (zero_sub _).symm

theorem signedQuantity_finalPosition (E : MatchEnv R D)
    (batch : DerivativeBatchExecutionData D) (s : Hash) :
    signedQuantity (finalPosition E batch s) = readQuantity batch.positions E.storedQuantity s := by
  rw [finalPosition, readQuantity]
  cases batch.positions s with
  | none => rfl
  | some p => rfl

theorem TracksPositions.balances {E : MatchEnv R D}
    {batch : DerivativeBatchExecutionData D} (h : TracksPositions E batch) :
    BalancesPositions E batch := by
  have hgross : ∀ positions : Hash → Option (Position D),
      gross (fun s => signedQuantity (positions s)) = ∑ s, |quantityOf (positions s)| :=
    fun positions => Finset.sum_congr rfl (fun s _ => abs_signedQuantity (positions s))
  have hsides : ∀ positions : Hash → Option (Position D),
      net (fun s => signedQuantity (positions s)) =
        ∑ s, longQuantity (positions s) - ∑ s, shortQuantity (positions s) := by
    intro positions
    rw [← Finset.sum_sub_distrib]
    exact Finset.sum_congr rfl (fun s _ => signedQuantity_eq (positions s))
  have hfinal := funext (signedQuantity_finalPosition E batch)
  constructor
  · rw [h.openInterest, Finset.sum_sub_distrib, ← hgross, ← hgross, hfinal]
    rfl
  · rw [← hsides, ← hsides, hfinal]
    exact h.netQuantity

/-- **OPEN INTEREST AND SIDE BALANCE** of every batch, of the auction and of market
    orders: the open interest delta is the sum over all subaccounts of what the size of
    their position changes, and longs minus shorts stay the same. -/
theorem batches_balance_positions (E : MatchEnv R D) :
    (∀ (strategy : DerivativeClearingPriceStrategy D) (buys : SideOrders D true)
      (sells : SideOrders D false) (risk : R)
      (buyOrdersToCancel sellOrdersToCancel : List (DerivativeLimitOrder D)),
      ∃ batch, executeAuction E strategy buys sells risk buyOrdersToCancel
        sellOrdersToCancel = some batch ∧ BalancesPositions E batch) ∧
    ∀ (isLiquidation : Bool) (marketBuys : MarketOrders D true)
      (marketSells : MarketOrders D false) (limitBuys : SideOrders D true)
      (limitSells : SideOrders D false) (risk : R),
      ∃ batch, executeMarketOrders E isLiquidation marketBuys marketSells limitBuys
        limitSells risk = some batch ∧ BalancesPositions E batch := by
  constructor
  · intro strategy buys sells risk buyCancels sellCancels
    obtain ⟨batch, hrun, htracks⟩ :=
      executeAuction_tracks E strategy buys sells risk buyCancels sellCancels
    exact ⟨batch, hrun, htracks.balances⟩
  · intro isLiquidation marketBuys marketSells limitBuys limitSells risk
    obtain ⟨batch, hrun, htracks⟩ := executeMarketOrders_tracks E isLiquidation marketBuys
      marketSells limitBuys limitSells risk
    exact ⟨batch, hrun, htracks.balances⟩

/-- A market buy of 2 for up to 11. -/
def sampleMarketBuys : MarketOrders ℚ true where
  orders := [{ orderInfo := (sampleOrder 3 .buy 11 2).orderInfo, orderType := .buy
               margin := 4, marginHold := 4, orderHash := 3 }]
  direction o ho := by rw [List.mem_singleton.mp ho]; rfl
  quantity_nonneg o ho := by rw [List.mem_singleton.mp ho]; exact zero_le_two

-- it opens 2 while the sell it meets flips a long of 1 into a short of 1
example : (executeMarketOrders sampleEnv false sampleMarketBuys ⟨[], nofun, nofun⟩
    (sampleSide true 1 8) (sampleSide false 2 9) ()).map
      (fun batch => (batch.openInterestDelta,
        [1, 2, 3].map (fun s => signedQuantity (finalPosition sampleEnv batch s)))) =
    some (2, [0, -1, 2]) := by
  decide +kernel

/-- `ApplyOpenInterestDeltaForMarket`, on the open interest in the store. -/
def applyOpenInterestDeltaForMarket (currentOpenInterest openInterestDelta : D) : D :=
  if openInterestDelta = 0 then currentOpenInterest
  else if currentOpenInterest + openInterestDelta < 0 then 0
  else currentOpenInterest + openInterestDelta

/-- Open interest that is the gross position stays so; it is never cut off at zero. -/
theorem openInterest_eq_gross {E : MatchEnv R D} {batch : DerivativeBatchExecutionData D}
    (h : TracksPositions E batch) :
    applyOpenInterestDeltaForMarket (gross E.storedQuantity) batch.openInterestDelta =
      gross (readQuantity batch.positions E.storedQuantity) := by
  have hsum : gross E.storedQuantity + batch.openInterestDelta =
      gross (readQuantity batch.positions E.storedQuantity) := by
    rw [h.openInterest, add_sub_cancel]
  have hnonneg : 0 ≤ gross (readQuantity batch.positions E.storedQuantity) :=
    Finset.sum_nonneg (fun s _ => abs_nonneg _)
  rw [applyOpenInterestDeltaForMarket]
  by_cases hzero : batch.openInterestDelta = 0
  · rw [if_pos hzero, ← hsum, hzero, add_zero]
  · rw [if_neg hzero, hsum, if_neg (not_lt.mpr hnonneg)]

end Positions

end ExchangeOpenInterest
