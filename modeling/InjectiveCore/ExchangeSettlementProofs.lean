import InjectiveCore.ExchangePositionProofs
import InjectiveCore.ExchangeMarketFundsProofs

/-!
# Settlement — socialising a loss and closing every position

`SettleMarket` ends a derivative or binary options market in two steps
(`keeper/derivative/market.go`, `types/v2/position.go`):

- `executeSocializedLoss` compares what the positions are owed at the settlement price
  with the market balance, draws on the insurance fund and, if a deficit remains, cuts
  profits, then payouts, or pays nothing at all;
- `closeAllPositionsWithSettlePrice` closes every position, credits the payouts and the
  closing fees to the deposits and takes the payouts from the market balance. When that
  balance turns out negative it **returns early**: the positions are closed, no deposit
  is credited.

One identity carries the results of this file, `closingData_conserves`: what the deposits
gain and the market balance loses differ by exactly the closing fees.
-/

/-! ## Haircuts and closing, of one position -/

namespace ExchangePosition

open DecArith ExchangeFees

variable {D : Type} [DecArith D]

/-- `ApplyProfitHaircutForDerivatives`: the entry price moves towards the settlement
    price, and a payout that becomes negative is made up for with margin. -/
def Position.applyProfitHaircutForDerivatives (p : Position D)
    (deficitAmount totalProfits settlementPrice : D) : Position D :=
  let q : Position D :=
    { p with
      entryPrice :=
        quo (mul deficitAmount (settlementPrice - p.entryPrice)) totalProfits + p.entryPrice }
  let newPositionPayout := (q.getPayoutIfFullyClosing settlementPrice 0).payout
  if newPositionPayout < 0 then { q with margin := q.margin + |newPositionPayout| } else q

/-- `ApplyTotalPositionPayoutHaircut`. -/
def Position.applyTotalPositionPayoutHaircut (p : Position D)
    (deficitAmount totalPayouts settlementPrice : D) : Position D :=
  let q := p.applyProfitHaircutForDerivatives deficitAmount totalPayouts settlementPrice
  { q with margin := q.margin - quo (mul q.margin deficitAmount) totalPayouts }

/-- `ApplyProfitHaircutForBinaryOptions`: the haircut is taken from the margin, the
    entry price only follows. -/
def Position.applyProfitHaircutForBinaryOptions (p : Position D)
    (deficitAmount totalAssets : D) (oracleScaleFactor : ℕ) : Position D :=
  let newMargin := p.margin - quo (mul deficitAmount p.margin) totalAssets
  { p with
    margin := newMargin
    entryPrice :=
      if p.isLong then quo newMargin p.quantity
      else getScaledPrice one oracleScaleFactor - quo newMargin p.quantity }

/-- `ClosePositionWithoutPayouts`. -/
def Position.closePositionWithoutPayouts (_ : Position D) : Position D :=
  { isLong := false, quantity := 0, entryPrice := 0, margin := 0,
    cumulativeFundingEntry := some 0 }

/-- What closing a position returns, with the position it leaves. -/
structure PositionClose (D : Type) where
  position : Position D
  payout : D
  closeTradingFee : D
  positionDelta : PositionDelta D
  pnl : D
  deriving DecidableEq, Repr

/-- `ClosePositionWithSettlePrice`: the whole quantity is netted against a delta without
    margin, so that the fee is deducted from the payout. -/
def Position.closePositionWithSettlePrice (p : Position D)
    (settlementPrice closingFeeRate : D) : PositionClose D :=
  let closeTradingFee := mul (mul settlementPrice p.quantity) closingFeeRate
  let positionDelta : PositionDelta D :=
    { isLong := !p.isLong, executionQuantity := p.quantity, executionMargin := 0
      executionPrice := settlementPrice }
  if p.quantity = 0 then
    { position := p, payout := 0, closeTradingFee := closeTradingFee
      positionDelta := positionDelta, pnl := 0 }
  else
    let u := p.applyPositionDelta positionDelta closeTradingFee
    { position := u.position, payout := u.payout, closeTradingFee := closeTradingFee
      positionDelta := positionDelta, pnl := u.pnl }

/-- `ClosePositionByRefunding`. -/
def Position.closePositionByRefunding (p : Position D) (closingFeeRate : D) :
    PositionClose D :=
  p.closePositionWithSettlePrice p.entryPrice closingFeeRate

/-- **CLOSING**: a position with a quantity is paid what `GetPayoutIfFullyClosing`
    announces and is left empty. -/
theorem closePositionWithSettlePrice_spec (p : Position D) (price rate : D)
    (hq : p.quantity ≠ 0) :
    (p.closePositionWithSettlePrice price rate).payout =
        (p.getPayoutIfFullyClosing price rate).payout ∧
      (p.closePositionWithSettlePrice price rate).position.quantity = 0 := by
  have hdir : ¬p.isLong = !p.isLong := by cases p.isLong <;> simp
  have hsplit : splitPositionMargin p.margin p.quantity p.quantity = (p.margin, 0) := by
    rw [splitPositionMargin, if_neg (by simp [hq]), if_pos rfl]
  simp only [Position.closePositionWithSettlePrice, if_neg hq, Position.applyPositionDelta,
    Position.oriented, if_neg hdir, min_self, hsplit, if_true, lt_self_iff_false, if_false,
    Position.getPayoutIfFullyClosing, sub_self, and_self]

theorem closePosition_payout_of_zero (p : Position D) (price rate : D)
    (hq : p.quantity = 0) : (p.closePositionWithSettlePrice price rate).payout = 0 := by
  simp only [Position.closePositionWithSettlePrice, if_pos hq]

end ExchangePosition

namespace ExchangeSettlement

open DecArith DeltaLedger ExchangeFees ExchangePosition ExchangeMarketFunds

variable {D : Type} [DecArith D]

/-! ## The loss of a market -/

/-- `DerivativePosition`: a position and its owner. -/
structure DerivativePosition (D : Type) where
  subaccountID : Hash
  position : Position D
  deriving DecidableEq, Repr

/-- Change the position, keep the owner. -/
def DerivativePosition.modify (p : DerivativePosition D) (f : Position D → Position D) :
    DerivativePosition D :=
  { p with position := f p.position }

/-- What settlement reads of a market. -/
structure SettlementMarket where
  marketType : MarketType
  quoteDecimals : ℕ
  oracleScaleFactor : ℕ
  deriving DecidableEq, Repr

/-- `BinaryOptionsMarketRefundFlagPrice`. -/
def binaryOptionsMarketRefundFlagPrice : D := newDec (-1)

/-- `DeficitPositions`. -/
structure DeficitPosition (D : Type) where
  subaccountID : Hash
  deficitAmountAbs : D
  deriving DecidableEq, Repr

/-- `SocializedLossData`. The source collects pointers to the positions that receive a
    haircut; here they are told by a predicate on the positions. -/
structure SocializedLossData (D : Type) where
  receivesHaircut : Position D → Bool
  deficitPositions : List (DeficitPosition D)
  deficitAmountAbs : D
  surplusAmount : D
  totalProfits : D
  totalPositivePayouts : D

/-- The results of `getPositionFundsStatus`. -/
structure PositionFundsStatus (D : Type) where
  isProfitable : Bool
  profitAmount : D
  deficitAmountAbs : D
  payout : D
  deriving DecidableEq, Repr

/-- `getPositionFundsStatus`: a negative margin counts against the profit. -/
def getPositionFundsStatus (position : Position D) (settlementPrice closingFeeRate : D) :
    PositionFundsStatus D :=
  let positionPayout := position.getPayoutIfFullyClosing settlementPrice closingFeeRate
  { isProfitable := positionPayout.isProfitable
    profitAmount :=
      if positionPayout.isProfitable then
        if position.margin < 0 then positionPayout.pnlNotional + position.margin
        else positionPayout.pnlNotional
      else 0
    deficitAmountAbs :=
      if positionPayout.isProfitable then 0
      else if positionPayout.payout < 0 then |positionPayout.payout| else 0
    payout := positionPayout.payout }

/-- One round of the loop of `getDerivativeSocializedLossData`. -/
def SocializedLossData.addPosition (settlementPrice closingFeeRate : D)
    (data : SocializedLossData D) (p : DerivativePosition D) : SocializedLossData D :=
  let status := getPositionFundsStatus p.position settlementPrice closingFeeRate
  { data with
    totalProfits := data.totalProfits + status.profitAmount
    deficitAmountAbs := data.deficitAmountAbs + status.deficitAmountAbs
    totalPositivePayouts :=
      if 0 < status.payout then data.totalPositivePayouts + status.payout
      else data.totalPositivePayouts
    deficitPositions :=
      if status.isProfitable then data.deficitPositions
      else if 0 < status.deficitAmountAbs then
        data.deficitPositions ++ [⟨p.subaccountID, status.deficitAmountAbs⟩]
      else data.deficitPositions }

/-- `getDerivativeSocializedLossData`, on positions that have their funding applied. -/
def getDerivativeSocializedLossData (positions : List (DerivativePosition D))
    (settlementPrice closingFeeRate marketBalance : D) : SocializedLossData D :=
  let data := positions.foldl (SocializedLossData.addPosition settlementPrice closingFeeRate)
    { receivesHaircut := fun p =>
        (getPositionFundsStatus p settlementPrice closingFeeRate).isProfitable
      deficitPositions := [], deficitAmountAbs := 0, surplusAmount := 0
      totalProfits := 0, totalPositivePayouts := 0 }
  { data with
    deficitAmountAbs :=
      max data.deficitAmountAbs (data.totalPositivePayouts - marketBalance) }

/-- `getTotalMarginAndQuantity`. -/
def getTotalMarginAndQuantity (positions : List (DerivativePosition D)) : D × D :=
  positions.foldl (fun t p => (t.1 + p.position.margin, t.2 + p.position.quantity)) (0, 0)

/-- `getBinaryOptionsSocializedLossDataWithRefundFlag`: all positions receive the
    haircut, the margins are the liabilities, and the profits stand for the assets. -/
def getBinaryOptionsSocializedLossDataWithRefundFlag (market : SettlementMarket)
    (positions : List (DerivativePosition D)) (marketBalance : D) : SocializedLossData D :=
  let totalMarginLiabilities := (getTotalMarginAndQuantity positions).1
  let totalQuantity := (getTotalMarginAndQuantity positions).2
  let assets := quo (getScaledPrice totalQuantity market.oracleScaleFactor) (newDec 2)
  let surplus := max (assets - totalMarginLiabilities) 0
  let deficitAmountAbs :=
    max (max (totalMarginLiabilities - assets) 0)
      (surplus + totalMarginLiabilities - marketBalance)
  { receivesHaircut := fun _ => true
    deficitPositions := []
    deficitAmountAbs := deficitAmountAbs
    surplusAmount := if 0 < deficitAmountAbs then 0 else surplus
    totalProfits := assets
    totalPositivePayouts := 0 }

/-- `getBinaryOptionsSocializedLossData`. -/
def getBinaryOptionsSocializedLossData (market : SettlementMarket)
    (positions : List (DerivativePosition D)) (marketBalance settlementPrice : D) :
    SocializedLossData D :=
  if settlementPrice = binaryOptionsMarketRefundFlagPrice then
    getBinaryOptionsSocializedLossDataWithRefundFlag market positions marketBalance
  else getDerivativeSocializedLossData positions settlementPrice 0 marketBalance

/-! ## The waterfall -/

/-- Change the positions whose full close would pay something. -/
def modifyPaying (settlementPrice closingFeeRate : D) (f : Position D → Position D)
    (p : Position D) : Position D :=
  if 0 < (p.getPayoutIfFullyClosing settlementPrice closingFeeRate).payout then f p else p

/-- The haircut on profits, of the loop over `PositionsReceivingHaircut`. -/
def profitHaircut (market : SettlementMarket) (data : SocializedLossData D)
    (settlementPrice deficitTakenFromProfits : D) (p : Position D) : Position D :=
  if data.receivesHaircut p then
    if market.marketType = .binaryOption then
      p.applyProfitHaircutForBinaryOptions deficitTakenFromProfits data.totalProfits
        market.oracleScaleFactor
    else
      p.applyProfitHaircutForDerivatives deficitTakenFromProfits data.totalProfits
        settlementPrice
  else p

/-- The last stage, for a deficit beyond the profits: pay out less, or nothing. -/
def payoutHaircut (data : SocializedLossData D) (settlementPrice closingFeeRate deficit : D)
    (p : Position D) : Position D :=
  let remainingDeficit := deficit - data.totalProfits
  let remainingPayouts := data.totalPositivePayouts - data.totalProfits
  if remainingDeficit ≤ remainingPayouts then
    modifyPaying settlementPrice closingFeeRate (fun q =>
      q.applyTotalPositionPayoutHaircut remainingDeficit remainingPayouts settlementPrice) p
  else modifyPaying settlementPrice closingFeeRate Position.closePositionWithoutPayouts p

/-- What a deficit that insurance did not cover does to one position: the loops of
    `executeSocializedLoss` treat the positions independently. -/
def haircut (market : SettlementMarket) (data : SocializedLossData D)
    (settlementPrice closingFeeRate deficit : D) (p : Position D) : Position D :=
  if 0 < deficit then
    let canProfitsCoverDeficit := deficit ≤ data.totalProfits
    let q :=
      if 0 < data.totalProfits then
        profitHaircut market data settlementPrice
          (if canProfitsCoverDeficit then deficit else data.totalProfits) p
      else p
    if canProfitsCoverDeficit then q
    else payoutHaircut data settlementPrice closingFeeRate deficit q
  else p

/-- The outcomes of the bank transfers between exchange and insurance module. -/
structure BankOutcomes where
  depositSucceeds : Bool
  withdrawalSucceeds : Bool
  deriving DecidableEq, Repr

/-- What `executeSocializedLoss` leaves behind. `auctionCredit` goes to the auction
    subaccount when a surplus finds no insurance fund. -/
structure SocializedLoss (D : Type) where
  positions : List (DerivativePosition D)
  deficitPositions : List (DeficitPosition D)
  funds : MarketFunds D
  auctionCredit : D
  deriving DecidableEq, Repr

/-- The positions with the funding that `getDerivativeSocializedLossData` realises; the
    binary options path passes no funding. -/
def fundedPositions (market : SettlementMarket)
    (marketFunding : Option (PerpetualMarketFunding D))
    (positions : List (DerivativePosition D)) : List (DerivativePosition D) :=
  if market.marketType = .binaryOption then positions
  else positions.map (·.modify (·.applyFunding marketFunding))

/-- The loss data of the market type, on the funded positions. -/
def socializedLossData (market : SettlementMarket) (positions : List (DerivativePosition D))
    (settlementPrice closingFeeRate marketBalance : D) : SocializedLossData D :=
  if market.marketType = .binaryOption then
    getBinaryOptionsSocializedLossData market positions marketBalance settlementPrice
  else
    getDerivativeSocializedLossData positions settlementPrice closingFeeRate marketBalance

/-- `executeSocializedLoss`. -/
def executeSocializedLoss (market : SettlementMarket) (bank : BankOutcomes)
    (funds : MarketFunds D) (marketFunding : Option (PerpetualMarketFunding D))
    (positions : List (DerivativePosition D)) (settlementPrice closingFeeRate : D) :
    SocializedLoss D :=
  let positions := fundedPositions market marketFunding positions
  let data := socializedLossData market positions settlementPrice closingFeeRate
    (fromChainFormat funds.marketBalance market.quoteDecimals)
  let chainFormattedSurplusAmount := toChainFormat data.surplusAmount market.quoteDecimals
  let surplusAmount := truncateInt chainFormattedSurplusAmount
  if 0 < surplusAmount then
    match funds.moveCoinsIntoInsuranceFund bank.depositSucceeds surplusAmount with
    | .ok funds' => ⟨positions, data.deficitPositions, funds', 0⟩
    | .error _ => ⟨positions, data.deficitPositions, funds, chainFormattedSurplusAmount⟩
  else
    let payment := funds.payDeficitFromInsuranceFund bank.withdrawalSucceeds
      (toChainFormat data.deficitAmountAbs market.quoteDecimals)
    let deficitAmountAfterInsuranceFunds :=
      fromChainFormat payment.remainingAbsoluteDeficitAmount market.quoteDecimals
    { positions := positions.map (·.modify
        (haircut market data settlementPrice closingFeeRate deficitAmountAfterInsuranceFunds))
      deficitPositions := data.deficitPositions
      funds := payment.funds
      auctionCredit := 0 }

/-! ## Closing -/

/-- The accumulators of `closeAllPositionsWithSettlePrice`, and the positions it saves. -/
structure ClosingData (D : Type) where
  depositDeltas : DepositDeltas D
  marketBalanceDelta : D
  positions : List (DerivativePosition D)

/-- The close of one position, at the settlement price or, for the refund flag, at its
    own entry price. -/
def closePosition (settlementPrice closingFeeRate : D) (p : Position D) : PositionClose D :=
  if settlementPrice = binaryOptionsMarketRefundFlagPrice then
    p.closePositionByRefunding closingFeeRate
  else p.closePositionWithSettlePrice settlementPrice closingFeeRate

/-- The closing fee that the auction subaccount is credited with, in chain format. -/
def auctionFeeReward (market : SettlementMarket) (settlementPrice closingFeeRate : D)
    (p : Position D) : D :=
  toChainFormat (mul (mul settlementPrice p.quantity) closingFeeRate) market.quoteDecimals

/-- One round of the loop over the positions. -/
def ClosingData.closeOne (market : SettlementMarket) (settlementPrice closingFeeRate : D)
    (c : ClosingData D) (p : DerivativePosition D) : ClosingData D :=
  let depositDeltas :=
    if 0 < closingFeeRate ∧ 0 < settlementPrice then
      c.depositDeltas.applyDelta auctionSubaccountID
        (.uniform (auctionFeeReward market settlementPrice closingFeeRate p.position))
    else c.depositDeltas
  let close := closePosition settlementPrice closingFeeRate p.position
  let chainFormatPayout := toChainFormat close.payout market.quoteDecimals
  { depositDeltas := depositDeltas.applyDelta p.subaccountID (.uniform chainFormatPayout)
    marketBalanceDelta := c.marketBalanceDelta + -chainFormatPayout
    positions := c.positions ++ [p.modify (fun _ => close.position)] }

/-- One round of the loop over the deficit positions: their negative payout is taken
    back on both ledgers. -/
def ClosingData.coverDeficit (market : SettlementMarket) (c : ClosingData D)
    (p : DeficitPosition D) : ClosingData D :=
  let chainFormattedDeficitAmountAbs := toChainFormat p.deficitAmountAbs market.quoteDecimals
  { c with
    depositDeltas :=
      c.depositDeltas.applyDelta p.subaccountID (.uniform chainFormattedDeficitAmountAbs)
    marketBalanceDelta := c.marketBalanceDelta - chainFormattedDeficitAmountAbs }

/-- What settlement leaves: the saved positions, the market balance, the open interest
    and the deltas applied to the deposits. -/
structure SettledMarket (D : Type) where
  positions : List (DerivativePosition D)
  marketBalance : D
  openInterest : D
  depositDeltas : DepositDeltas D

/-- The two loops of `closeAllPositionsWithSettlePrice`. -/
def closingData (market : SettlementMarket) (positions : List (DerivativePosition D))
    (settlementPrice closingFeeRate : D) (deficitPositions : List (DeficitPosition D)) :
    ClosingData D :=
  deficitPositions.foldl (ClosingData.coverDeficit market)
    (positions.foldl (ClosingData.closeOne market settlementPrice closingFeeRate)
      { depositDeltas := Ledger.empty, marketBalanceDelta := 0, positions := [] })

/-- `closeAllPositionsWithSettlePrice`. A negative market balance skips the deposit
    updates, after the positions and the balance were saved. -/
def closeAllPositionsWithSettlePrice (market : SettlementMarket) (marketBalance : D)
    (positions : List (DerivativePosition D)) (settlementPrice closingFeeRate : D)
    (deficitPositions : List (DeficitPosition D)) : SettledMarket D :=
  let c := closingData market positions settlementPrice closingFeeRate deficitPositions
  { positions := c.positions
    marketBalance := marketBalance + c.marketBalanceDelta
    openInterest := 0
    depositDeltas :=
      if marketBalance + c.marketBalanceDelta < 0 then Ledger.empty else c.depositDeltas }

/-- `SettleMarket`, after the orders of the market were cancelled. -/
def settleMarket (market : SettlementMarket) (bank : BankOutcomes) (funds : MarketFunds D)
    (marketFunding : Option (PerpetualMarketFunding D))
    (positions : List (DerivativePosition D)) (settlementPrice closingFeeRate : D) :
    SettledMarket D :=
  let loss := executeSocializedLoss market bank funds marketFunding positions
    settlementPrice closingFeeRate
  closeAllPositionsWithSettlePrice market loss.funds.marketBalance loss.positions
    settlementPrice closingFeeRate loss.deficitPositions

/-! ## Conservation while closing -/

section Closing

variable (market : SettlementMarket) (settlementPrice closingFeeRate : D)

/-- The closing fees credited to the auction over a list of positions. -/
def closingFees (positions : List (DerivativePosition D)) : D :=
  if 0 < closingFeeRate ∧ 0 < settlementPrice then
    (positions.map fun p =>
      auctionFeeReward market settlementPrice closingFeeRate p.position).sum
  else 0

/-- The payout of closing a position, in chain format. -/
def chainPayout (p : Position D) : D :=
  toChainFormat (closePosition settlementPrice closingFeeRate p).payout market.quoteDecimals

/-- One close moves the sum of both ledgers by its fee, and the market by its payout. -/
theorem closeOne_spec (c : ClosingData D) (p : DerivativePosition D) :
    (c.closeOne market settlementPrice closingFeeRate p).marketBalanceDelta =
        c.marketBalanceDelta - chainPayout market settlementPrice closingFeeRate p.position ∧
      DepositDeltas.totalBalance
          (c.closeOne market settlementPrice closingFeeRate p).depositDeltas =
        DepositDeltas.totalBalance c.depositDeltas +
          chainPayout market settlementPrice closingFeeRate p.position +
          closingFees market settlementPrice closingFeeRate [p] := by
  refine ⟨(sub_eq_add_neg _ _).symm, ?_⟩
  simp only [ClosingData.closeOne, closingFees, chainPayout, totalBalance_applyDelta,
    DepositDelta.uniform_total]
  split
  · rw [totalBalance_applyDelta, DepositDelta.uniform_total]
    simp only [List.map_cons, List.map_nil, List.sum_singleton]
    abel
  · rw [add_zero]

theorem closingFees_cons (p : DerivativePosition D) (ps : List (DerivativePosition D)) :
    closingFees market settlementPrice closingFeeRate (p :: ps) =
      closingFees market settlementPrice closingFeeRate [p] +
        closingFees market settlementPrice closingFeeRate ps := by
  simp only [closingFees]
  split
  · simp only [List.map_cons, List.map_nil, List.sum_cons, List.sum_nil, add_zero]
  · rw [add_zero]

theorem foldl_closeOne_spec (ps : List (DerivativePosition D)) (c : ClosingData D) :
    (ps.foldl (ClosingData.closeOne market settlementPrice closingFeeRate)
        c).marketBalanceDelta =
      c.marketBalanceDelta - (ps.map fun p =>
        chainPayout market settlementPrice closingFeeRate p.position).sum ∧
    DepositDeltas.totalBalance
        (ps.foldl (ClosingData.closeOne market settlementPrice closingFeeRate) c).depositDeltas =
      DepositDeltas.totalBalance c.depositDeltas +
        (ps.map fun p =>
          chainPayout market settlementPrice closingFeeRate p.position).sum +
        closingFees market settlementPrice closingFeeRate ps := by
  induction ps generalizing c with
  | nil => simp [closingFees]
  | cons p rest ih =>
    obtain ⟨hm, hd⟩ := closeOne_spec market settlementPrice closingFeeRate c p
    obtain ⟨ihm, ihd⟩ := ih (c.closeOne market settlementPrice closingFeeRate p)
    rw [List.foldl_cons, ihm, ihd, hm, hd, List.map_cons, List.sum_cons,
      closingFees_cons market settlementPrice closingFeeRate p rest]
    constructor <;> abel

/-- The loop over the deficit positions moves both ledgers by the same amount. -/
theorem foldl_coverDeficit_spec (ds : List (DeficitPosition D)) (c : ClosingData D) :
    (ds.foldl (ClosingData.coverDeficit market) c).marketBalanceDelta =
      c.marketBalanceDelta -
        (ds.map fun d => toChainFormat d.deficitAmountAbs market.quoteDecimals).sum ∧
    DepositDeltas.totalBalance (ds.foldl (ClosingData.coverDeficit market) c).depositDeltas =
      DepositDeltas.totalBalance c.depositDeltas +
        (ds.map fun d => toChainFormat d.deficitAmountAbs market.quoteDecimals).sum := by
  induction ds generalizing c with
  | nil => simp
  | cons d rest ih =>
    obtain ⟨ihm, ihd⟩ := ih (c.coverDeficit market d)
    rw [List.foldl_cons, ihm, ihd, List.map_cons, List.sum_cons]
    simp only [ClosingData.coverDeficit, totalBalance_applyDelta, DepositDelta.uniform_total]
    constructor <;> abel

theorem closingData_marketBalanceDelta (ps : List (DerivativePosition D))
    (ds : List (DeficitPosition D)) :
    (closingData market ps settlementPrice closingFeeRate ds).marketBalanceDelta =
      -(ps.map fun p => chainPayout market settlementPrice closingFeeRate p.position).sum -
        (ds.map fun d => toChainFormat d.deficitAmountAbs market.quoteDecimals).sum := by
  rw [closingData, (foldl_coverDeficit_spec market ds _).1,
    (foldl_closeOne_spec market settlementPrice closingFeeRate ps _).1, zero_sub]

/-- **THE GAP**: the deposits gain what the market balance loses, and the closing fees
    on top. -/
theorem closingData_conserves (ps : List (DerivativePosition D))
    (ds : List (DeficitPosition D)) :
    DepositDeltas.totalBalance
        (closingData market ps settlementPrice closingFeeRate ds).depositDeltas +
        (closingData market ps settlementPrice closingFeeRate ds).marketBalanceDelta =
      closingFees market settlementPrice closingFeeRate ps := by
  obtain ⟨hm, hd⟩ := foldl_closeOne_spec market settlementPrice closingFeeRate ps
    { depositDeltas := Ledger.empty, marketBalanceDelta := 0, positions := [] }
  obtain ⟨hm', hd'⟩ := foldl_coverDeficit_spec market ds
    (ps.foldl (ClosingData.closeOne market settlementPrice closingFeeRate)
      { depositDeltas := Ledger.empty, marketBalanceDelta := 0, positions := [] })
  rw [closingData, hm', hd', hm, hd, totalBalance_empty, zero_add, zero_sub]
  abel

/-- Closing fees are credits: no fee is negative, and they vanish only together. -/
theorem closingFees_eq_zero_iff (ps : List (DerivativePosition D))
    (hrate : 0 ≤ closingFeeRate) (hps : ∀ p ∈ ps, 0 ≤ p.position.quantity) :
    closingFees market settlementPrice closingFeeRate ps = 0 ↔
      settlementPrice ≤ 0 ∨
        ∀ p ∈ ps, mul (mul settlementPrice p.position.quantity) closingFeeRate = 0 := by
  by_cases hS : settlementPrice ≤ 0
  · simp [closingFees, not_lt.mpr hS, hS]
  · have hS' : 0 < settlementPrice := not_le.mp hS
    rcases hrate.eq_or_lt with h0 | hpos
    · simp [closingFees, ← h0]
    · have hnn : ∀ x ∈ ps.map (fun p =>
          auctionFeeReward market settlementPrice closingFeeRate p.position), 0 ≤ x := by
        intro x hx
        obtain ⟨p, hp, rfl⟩ := List.mem_map.mp hx
        rw [auctionFeeReward, toChainFormat_eq_zsmul]
        exact zsmul_nonneg (DecArith.mul_nonneg
          (DecArith.mul_nonneg hS'.le (hps p hp)) hrate) (by positivity)
      have hz : ∀ p : DerivativePosition D,
          auctionFeeReward market settlementPrice closingFeeRate p.position = 0 ↔
            mul (mul settlementPrice p.position.quantity) closingFeeRate = 0 := by
        intro p
        rw [auctionFeeReward, toChainFormat_eq_zsmul]
        exact smul_eq_zero_iff_right (by positivity)
      rw [closingFees, if_pos ⟨hpos, hS'⟩]
      simp only [hS, false_or, ← hz]
      constructor
      · intro hsum p hp
        exact List.all_zero_of_le_zero_le_of_sum_eq_zero hnn hsum (List.mem_map_of_mem hp)
      · intro hall
        exact List.sum_eq_zero (List.forall_mem_map.mpr hall)

/-- **SETTLEMENT CONSERVES VALUE UP TO THE CLOSING FEES**: when the deposits are
    updated, they gain exactly what the market balance loses if and only if no closing
    fee was credited. The fees are taken out of the payouts, and so stay in the market
    balance, but they are credited to the auction subaccount as well. -/
theorem settlement_conserves_iff (marketBalance : D) (ps : List (DerivativePosition D))
    (ds : List (DeficitPosition D)) (hrate : 0 ≤ closingFeeRate)
    (hps : ∀ p ∈ ps, 0 ≤ p.position.quantity)
    (hpaid : 0 ≤ (closeAllPositionsWithSettlePrice market marketBalance ps settlementPrice
      closingFeeRate ds).marketBalance) :
    let settled := closeAllPositionsWithSettlePrice market marketBalance ps settlementPrice
      closingFeeRate ds
    DepositDeltas.totalBalance settled.depositDeltas +
        (settled.marketBalance - marketBalance) = 0 ↔
      settlementPrice ≤ 0 ∨
        ∀ p ∈ ps, mul (mul settlementPrice p.position.quantity) closingFeeRate = 0 := by
  intro settled
  have hdeltas : settled.depositDeltas =
      (closingData market ps settlementPrice closingFeeRate ds).depositDeltas :=
    if_neg (not_lt.mpr hpaid)
  have hbalance : settled.marketBalance - marketBalance =
      (closingData market ps settlementPrice closingFeeRate ds).marketBalanceDelta :=
    add_sub_cancel_left _ _
  rw [hdeltas, hbalance, closingData_conserves,
    closingFees_eq_zero_iff market settlementPrice closingFeeRate ps hrate hps]

end Closing

/-- A perpetual market with a quote of six decimals. -/
def sampleMarket : SettlementMarket :=
  { marketType := .perpetual, quoteDecimals := 6, oracleScaleFactor := 0 }

/-- A position of subaccount `n` entered at price one. -/
def samplePosition (n : ℕ) (isLong : Bool) (quantity margin : ℤ) :
    DerivativePosition LegacyDec :=
  { subaccountID := BitVec.ofNat 256 n
    position := { isLong := isLong, quantity := newDec quantity, entryPrice := newDec 1
                  margin := newDec margin, cumulativeFundingEntry := none } }

/-- Without a closing fee nothing is left over. -/
theorem settlement_conserves_iff_sample :
    let settled := closeAllPositionsWithSettlePrice sampleMarket (newDec 2000000)
      [samplePosition 1 true 1 1, samplePosition 2 false 1 1] (newDec 1) 0 []
    DepositDeltas.totalBalance settled.depositDeltas +
        (settled.marketBalance - newDec 2000000) = 0 :=
  (settlement_conserves_iff sampleMarket (newDec 1) 0 (newDec 2000000)
    [samplePosition 1 true 1 1, samplePosition 2 false 1 1] [] (le_refl 0)
    (by decide +kernel) (by decide +kernel)).mpr (Or.inr (by decide +kernel))

/-- A long and a short of one contract settled at price one with a fee of ten percent:
    the deposits gain 2000000, the market balance loses 1800000. -/
theorem settlement_creates_closing_fees :
    let settled := closeAllPositionsWithSettlePrice sampleMarket (newDec 2000000)
      [samplePosition 1 true 1 1, samplePosition 2 false 1 1] (newDec 1) ⟨10 ^ 17⟩ []
    0 ≤ settled.marketBalance ∧
      DepositDeltas.totalBalance settled.depositDeltas = newDec 2000000 ∧
      settled.marketBalance - newDec 2000000 = newDec (-1800000) := by
  decide +kernel

end ExchangeSettlement
