import InjectiveCore.ExchangeSettlementProofs

/-!
# Socialised loss — who pays for a deficit, and what rounding leaves

`executeSocializedLoss` runs a waterfall: insurance, a haircut on profits, a haircut on
all payouts, and beyond that nothing is paid. This file describes its outcome
(`executeSocializedLoss_of_no_surplus`, `lossData_sums`) and follows it into the closing
loop.

`settled_balance` is the key fact. The negative payout of a deficit position and its
deficit cancel out, so the balance that decides on the early return is the balance with
the insurance payment minus what the other positions are paid.

A haircut takes the deficit from many positions by rounded products and quotients, which
`profitCutPayout` and `payoutCutPayout` write out for one position. The rounded cuts may
add up to less than the deficit, and the balance is then a few units short:
`settled_balance_nonneg_iff` says that this is the only way to a negative balance.
-/

namespace ExchangeSettlement

open DecArith DeltaLedger ExchangeFees ExchangePosition ExchangeMarketFunds

section LossData

variable {D : Type} [DecArith D] (settlementPrice closingFeeRate : D)

/-! ## The loss data as sums -/

/-- The payout a position is owed at the settlement price. -/
def payoutAt (p : Position D) : D :=
  (p.getPayoutIfFullyClosing settlementPrice closingFeeRate).payout

variable {settlementPrice closingFeeRate} in
theorem modifyPaying_of_pos {p : Position D} (h : 0 < payoutAt settlementPrice closingFeeRate p)
    (f : Position D → Position D) :
    modifyPaying settlementPrice closingFeeRate f p = f p := if_pos h

variable {settlementPrice closingFeeRate} in
theorem modifyPaying_of_not_pos {p : Position D}
    (h : ¬0 < payoutAt settlementPrice closingFeeRate p) (f : Position D → Position D) :
    modifyPaying settlementPrice closingFeeRate f p = p := if_neg h

/-- A position that cannot pay for its loss. -/
def isDeficit (p : Position D) : Bool :=
  !(getPositionFundsStatus p settlementPrice closingFeeRate).isProfitable &&
    decide (payoutAt settlementPrice closingFeeRate p < 0)

theorem deficitAmountAbs_eq (p : Position D) :
    (getPositionFundsStatus p settlementPrice closingFeeRate).deficitAmountAbs =
      if isDeficit settlementPrice closingFeeRate p then
        -payoutAt settlementPrice closingFeeRate p
      else 0 := by
  simp only [getPositionFundsStatus, isDeficit, payoutAt]
  by_cases hprof : (p.getPayoutIfFullyClosing settlementPrice closingFeeRate).isProfitable = true
  · simp [hprof]
  · by_cases hneg : (p.getPayoutIfFullyClosing settlementPrice closingFeeRate).payout < 0
    · simp [hprof, hneg, abs_of_neg]
    · simp [hprof, hneg]

/-- The loop of `getDerivativeSocializedLossData`: every accumulator is a sum over the
    positions. The deficit positions are kept as a list; only the sum of a function that
    vanishes at zero is needed of them. -/
theorem foldl_addPosition (g : D → D) (hg : g 0 = 0) (ps : List (DerivativePosition D))
    (data : SocializedLossData D) :
    let r := ps.foldl (SocializedLossData.addPosition settlementPrice closingFeeRate) data
    let status := fun p : DerivativePosition D =>
      getPositionFundsStatus p.position settlementPrice closingFeeRate
    r.totalProfits = data.totalProfits + (ps.map fun p => (status p).profitAmount).sum ∧
    r.deficitAmountAbs = data.deficitAmountAbs + (ps.map fun p => (status p).deficitAmountAbs).sum ∧
    r.totalPositivePayouts =
      data.totalPositivePayouts + (ps.map fun p => max (status p).payout 0).sum ∧
    (r.deficitPositions.map fun d => g d.deficitAmountAbs).sum =
      (data.deficitPositions.map fun d => g d.deficitAmountAbs).sum +
        (ps.map fun p => g (status p).deficitAmountAbs).sum ∧
    r.receivesHaircut = data.receivesHaircut ∧ r.surplusAmount = data.surplusAmount := by
  intro r status
  induction ps generalizing data with
  | nil => simp [r]
  | cons p rest ih =>
    obtain ⟨h1, h2, h3, h4, h5, h6⟩ := ih (data.addPosition settlementPrice closingFeeRate p)
    refine ⟨h1.trans ?_, h2.trans ?_, h3.trans ?_, h4.trans ?_, h5.trans rfl, h6.trans rfl⟩
    · rw [List.map_cons, List.sum_cons, ← add_assoc]; rfl
    · rw [List.map_cons, List.sum_cons, ← add_assoc]; rfl
    · rw [List.map_cons, List.sum_cons, ← add_assoc]
      congr 1
      simp only [SocializedLossData.addPosition]
      split
      · next h => rw [max_eq_left h.le]
      · next h => rw [max_eq_right (not_lt.mp h), add_zero]
    · rw [List.map_cons, List.sum_cons, ← add_assoc]
      congr 1
      -- a position outside the list has no deficit, and contributes `g 0`
      have habs := deficitAmountAbs_eq settlementPrice closingFeeRate p.position
      simp only [SocializedLossData.addPosition, status]
      by_cases hd : isDeficit settlementPrice closingFeeRate p.position = true
      · rw [if_pos hd] at habs
        simp only [isDeficit, Bool.and_eq_true, Bool.not_eq_true', decide_eq_true_eq] at hd
        rw [if_neg (by rw [hd.1]; decide), habs, if_pos (neg_pos.mpr hd.2)]
        simp
      · rw [if_neg hd] at habs
        rw [habs, if_neg (lt_irrefl 0), hg, add_zero]
        split <;> rfl

/-! ## Chain format -/

theorem toChainFormat_mono {x y : D} (h : x ≤ y) (decimals : ℕ) :
    toChainFormat x decimals ≤ toChainFormat y decimals := by
  rw [← sub_nonpos, ← toChainFormat_sub]
  exact toChainFormat_nonpos (sub_nonpos.mpr h) decimals

theorem toChainFormat_sum (xs : List D) (decimals : ℕ) :
    toChainFormat xs.sum decimals = (xs.map (toChainFormat · decimals)).sum := by
  induction xs with
  | nil => exact toChainFormat_zero decimals
  | cons x rest ih => rw [List.sum_cons, toChainFormat_add, ih, List.map_cons, List.sum_cons]

theorem sum_map_sub {α : Type} (f g : α → D) (l : List α) :
    (l.map fun a => f a - g a).sum = (l.map f).sum - (l.map g).sum := by
  rw [eq_sub_iff_add_eq, ← List.sum_map_add]
  simp only [sub_add_cancel]

end LossData

/-! ## One position through a haircut -/

section ClosedForm

variable {D : Type} [DecArith D] (settlementPrice : D) (p : Position D)

/-- The profit or loss of a position at the settlement price. -/
def pnlAt : D := p.getPayoutFromPnl settlementPrice p.quantity

/-- The same, with the settlement price `gap` above the entry price. -/
def pnlOver (gap : D) : D := if p.isLong then mul p.quantity gap else -mul p.quantity gap

/-- What taking the share `taken / total` leaves of a price difference, as it is rounded. -/
def shave (taken total gap : D) : D := gap - quo (mul taken gap) total

theorem payoutAt_eq : payoutAt settlementPrice 0 p = pnlAt settlementPrice p + p.margin := by
  simp only [payoutAt, pnlAt, Position.getPayoutIfFullyClosing, DecArith.mul_zero, sub_zero]

theorem isProfitable_not_isDeficit
    (h : (getPositionFundsStatus p settlementPrice 0).isProfitable = true) :
    isDeficit settlementPrice 0 p = false := by
  rw [isDeficit, h]; rfl

/-- **PROFIT HAIRCUT**: the entry price closes up to the settlement price, and a negative
    payout is made up for by margin. -/
theorem applyProfitHaircut_spec (deficit total : D) :
    let q := p.applyProfitHaircutForDerivatives deficit total settlementPrice
    let gap := shave deficit total (settlementPrice - p.entryPrice)
    q.isLong = p.isLong ∧ q.quantity = p.quantity ∧ settlementPrice - q.entryPrice = gap ∧
      q.margin = max p.margin (-pnlOver p gap) := by
  intro q gap
  have hgap : settlementPrice -
      (quo (mul deficit (settlementPrice - p.entryPrice)) total + p.entryPrice) = gap :=
    sub_add_eq_sub_sub_swap _ _ _
  have hpay : payoutAt settlementPrice 0
      { p with
        entryPrice := quo (mul deficit (settlementPrice - p.entryPrice)) total + p.entryPrice } =
        pnlOver p gap + p.margin := by
    rw [payoutAt_eq, pnlAt, Position.getPayoutFromPnl, hgap]; rfl
  have hq : q = p.applyProfitHaircutForDerivatives deficit total settlementPrice := rfl
  rw [payoutAt] at hpay
  simp only [Position.applyProfitHaircutForDerivatives, hpay] at hq
  split at hq
  · next h =>
      rw [hq]
      refine ⟨rfl, rfl, hgap, ?_⟩
      rw [max_eq_right (le_neg_iff_add_nonpos_left.mpr h.le)]
      show p.margin + |pnlOver p gap + p.margin| = -pnlOver p gap
      rw [abs_of_neg h]; abel
  · next h =>
      rw [hq]
      exact ⟨rfl, rfl, hgap, (max_eq_left (neg_le_iff_add_nonneg'.mpr (not_lt.mp h))).symm⟩

theorem pnlAt_applyProfitHaircut (deficit total : D) :
    pnlAt settlementPrice (p.applyProfitHaircutForDerivatives deficit total settlementPrice) =
      pnlOver p (shave deficit total (settlementPrice - p.entryPrice)) := by
  obtain ⟨hlong, hquantity, hgap, -⟩ := applyProfitHaircut_spec settlementPrice p deficit total
  rw [pnlAt, Position.getPayoutFromPnl, hgap, hlong, hquantity, pnlOver]

theorem payoutAt_applyProfitHaircut (deficit total : D) :
    payoutAt settlementPrice 0
        (p.applyProfitHaircutForDerivatives deficit total settlementPrice) =
      max (pnlOver p (shave deficit total (settlementPrice - p.entryPrice)) + p.margin) 0 := by
  rw [payoutAt_eq, pnlAt_applyProfitHaircut,
    (applyProfitHaircut_spec settlementPrice p deficit total).2.2.2, ← max_add_add_left,
    add_neg_cancel]

/-- The payout of a position whose profit is left at `y`, when the same share is taken from
    the margin. -/
def payoutFrom (y margin deficit total : D) : D :=
  y + (max margin (-y) - quo (mul (max margin (-y)) deficit) total)

/-- **PAYOUT HAIRCUT**: the profit haircut, then the same share of the margin. -/
theorem payoutAt_applyTotalPayoutHaircut (deficit total : D) :
    payoutAt settlementPrice 0
        (p.applyTotalPositionPayoutHaircut deficit total settlementPrice) =
      payoutFrom (pnlOver p (shave deficit total (settlementPrice - p.entryPrice))) p.margin
        deficit total := by
  have hmargin := (applyProfitHaircut_spec settlementPrice p deficit total).2.2.2
  rw [payoutAt_eq]
  show pnlAt settlementPrice (p.applyProfitHaircutForDerivatives deficit total settlementPrice) +
    _ = _
  rw [pnlAt_applyProfitHaircut, Position.applyTotalPositionPayoutHaircut, hmargin, payoutFrom]

/-- What a position is paid when a deficit within the total profits is taken from the
    profits. -/
def profitCutPayout (deficit profits : D) : D :=
  if (getPositionFundsStatus p settlementPrice 0).isProfitable then
    max (pnlOver p (shave deficit profits (settlementPrice - p.entryPrice)) + p.margin) 0
  else max (payoutAt settlementPrice 0 p) 0

/-- The price difference that is left when all profits, if there are any, were taken. -/
def gapWithoutProfits (profits : D) : D :=
  if (getPositionFundsStatus p settlementPrice 0).isProfitable ∧ 0 < profits then
    shave profits profits (settlementPrice - p.entryPrice)
  else settlementPrice - p.entryPrice

/-- What a position is paid when a deficit beyond the total profits is taken from all
    payouts. A profitable position that its margin leaves without a payout keeps it, below
    zero, when there are no total profits to take. -/
def payoutCutPayout (deficit profits payouts : D) : D :=
  let gap := gapWithoutProfits settlementPrice p profits
  if 0 < pnlOver p gap + p.margin then
    payoutFrom (pnlOver p (shave (deficit - profits) (payouts - profits) gap)) p.margin
      (deficit - profits) (payouts - profits)
  else if (getPositionFundsStatus p settlementPrice 0).isProfitable ∧ profits ≤ 0 then
    payoutAt settlementPrice 0 p
  else 0

/-- The rounded cuts make up for the deficit that the insurance fund leaves, where a haircut
    is taken: together with what the balance can spare they reach the deficit. The positions
    have their funding applied and all amounts are human readable. -/
def CutsCoverDeficit (balance insurance : D) (ps : List (Position D)) : Prop :=
  let payouts := (ps.map fun p => max (payoutAt settlementPrice 0 p) 0).sum
  let profits := (ps.map fun p => (getPositionFundsStatus p settlementPrice 0).profitAmount).sum
  let deficit := max
    (ps.map fun p => (getPositionFundsStatus p settlementPrice 0).deficitAmountAbs).sum
    (payouts - balance)
  let spare := balance + deficit - payouts
  let rest := deficit - insurance
  0 < rest →
    (rest ≤ profits → rest ≤ spare + (ps.map fun p =>
      max (payoutAt settlementPrice 0 p) 0 -
        profitCutPayout settlementPrice p rest profits).sum) ∧
    (profits < rest → rest ≤ payouts → rest ≤ spare + (ps.map fun p =>
      max (payoutAt settlementPrice 0 p) 0 -
        payoutCutPayout settlementPrice p rest profits payouts).sum)

end ClosedForm

/-! ## The outcome of the waterfall -/

section Outcome

variable {D : Type} [DecArith D] (market : SettlementMarket) (bank : BankOutcomes)
  (funds : MarketFunds D) (marketFunding : Option (PerpetualMarketFunding D))
  (positions : List (DerivativePosition D)) (settlementPrice closingFeeRate : D)

/-- The loss data `executeSocializedLoss` works with. -/
def lossData : SocializedLossData D :=
  socializedLossData market (fundedPositions market marketFunding positions) settlementPrice
    closingFeeRate (fromChainFormat funds.marketBalance market.quoteDecimals)

/-- The coins the insurance fund pays. -/
def insurancePayment (data : SocializedLossData D) : ℤ :=
  funds.withdrawn bank.withdrawalSucceeds
    (toChainFormat data.deficitAmountAbs market.quoteDecimals)

/-- The deficit that insurance leaves, human readable. -/
def remainingDeficit (data : SocializedLossData D) : D :=
  fromChainFormat (toChainFormat data.deficitAmountAbs market.quoteDecimals -
    newDec (insurancePayment market bank funds data)) market.quoteDecimals

/-- What a position is paid in the end, in chain format. The negative payout of a deficit
    position is written off. -/
def paidOut (data : SocializedLossData D) (p : Position D) : D :=
  if isDeficit settlementPrice closingFeeRate p then 0
  else chainPayout market settlementPrice closingFeeRate
    (haircut market data settlementPrice closingFeeRate
      (remainingDeficit market bank funds data) p)

variable {market bank funds marketFunding positions settlementPrice closingFeeRate}

theorem fundedPositions_quantity (hq : ∀ p ∈ positions, 0 < p.position.quantity) :
    ∀ p ∈ fundedPositions market marketFunding positions, 0 < p.position.quantity := by
  intro p hp
  rw [fundedPositions] at hp
  split at hp
  · exact hq p hp
  · obtain ⟨p₀, hp₀, rfl⟩ := List.mem_map.mp hp
    simpa [DerivativePosition.modify] using hq p₀ hp₀

theorem chainPayout_eq (hrefund : settlementPrice ≠ binaryOptionsMarketRefundFlagPrice)
    {q : Position D} (hq : q.quantity ≠ 0) :
    chainPayout market settlementPrice closingFeeRate q =
      toChainFormat (payoutAt settlementPrice closingFeeRate q) market.quoteDecimals := by
  rw [chainPayout, closePosition, if_neg hrefund,
    (closePositionWithSettlePrice_spec _ _ _ hq).1, payoutAt]

theorem chainPayout_closePaying_nonpos
    (hrefund : settlementPrice ≠ binaryOptionsMarketRefundFlagPrice) (q : Position D) :
    chainPayout market settlementPrice closingFeeRate (modifyPaying settlementPrice
      closingFeeRate Position.closePositionWithoutPayouts q) ≤ 0 := by
  have hempty : ∀ r : Position D, r.quantity = 0 →
      chainPayout market settlementPrice closingFeeRate r = 0 := by
    intro r hr
    rw [chainPayout, closePosition, if_neg hrefund, closePosition_payout_of_zero _ _ _ hr,
      toChainFormat_zero]
  rw [modifyPaying]
  split
  · exact (hempty _ rfl).le
  · next h =>
      by_cases hq : q.quantity = 0
      · exact (hempty _ hq).le
      · rw [chainPayout_eq hrefund hq]
        exact toChainFormat_nonpos (not_lt.mp h) _

variable {data : SocializedLossData D}
  (hdata : lossData market funds marketFunding positions settlementPrice closingFeeRate = data)
include hdata

/-- Without a surplus the waterfall is: pay from insurance, then cut every position. -/
theorem executeSocializedLoss_of_no_surplus (hs : data.surplusAmount = 0) :
    let loss := executeSocializedLoss market bank funds marketFunding positions
      settlementPrice closingFeeRate
    loss.positions = (fundedPositions market marketFunding positions).map (·.modify
        (haircut market data settlementPrice closingFeeRate
          (remainingDeficit market bank funds data))) ∧
      loss.deficitPositions = data.deficitPositions ∧
      loss.funds.marketBalance =
        funds.marketBalance + newDec (insurancePayment market bank funds data) := by
  subst hdata
  have hno : ¬0 < truncateInt (toChainFormat (lossData market funds marketFunding positions
      settlementPrice closingFeeRate).surplusAmount market.quoteDecimals) := by
    rw [hs, toChainFormat_zero, truncateInt_zero]
    exact lt_irrefl 0
  intro loss
  have hloss : loss = executeSocializedLoss market bank funds marketFunding positions
      settlementPrice closingFeeRate := rfl
  rw [lossData] at hno
  simp only [executeSocializedLoss] at hloss
  rw [if_neg hno] at hloss
  rw [hloss]
  refine ⟨?_, rfl, ?_⟩
  · rw [(MarketFunds.payDeficit_spec _ _ _).1]; rfl
  · exact (MarketFunds.payDeficit_spec _ _ _).2.1

variable (hmarket : market.marketType ≠ .binaryOption)
include hmarket

theorem lossData_surplus : data.surplusAmount = 0 := by
  rw [← hdata, lossData, socializedLossData, if_neg hmarket]
  exact (foldl_addPosition settlementPrice closingFeeRate id rfl _ _).2.2.2.2.2

theorem lossData_sums (g : D → D) (hg : g 0 = 0) :
    let ps := fundedPositions market marketFunding positions
    data.totalProfits = (ps.map fun p =>
      (getPositionFundsStatus p.position settlementPrice closingFeeRate).profitAmount).sum ∧
    data.deficitAmountAbs = max
      (ps.map fun p => (getPositionFundsStatus p.position settlementPrice
        closingFeeRate).deficitAmountAbs).sum
      (data.totalPositivePayouts - fromChainFormat funds.marketBalance market.quoteDecimals) ∧
    data.totalPositivePayouts =
      (ps.map fun p => max (payoutAt settlementPrice closingFeeRate p.position) 0).sum ∧
    (data.deficitPositions.map fun d => g d.deficitAmountAbs).sum =
      (ps.map fun p => g (getPositionFundsStatus p.position settlementPrice
        closingFeeRate).deficitAmountAbs).sum ∧
    ∀ p, data.receivesHaircut p =
      (getPositionFundsStatus p settlementPrice closingFeeRate).isProfitable := by
  intro ps
  rw [lossData, socializedLossData, if_neg hmarket] at hdata
  obtain ⟨h1, h2, h3, h4, h5, -⟩ := foldl_addPosition settlementPrice closingFeeRate g hg ps
    { receivesHaircut := fun p =>
        (getPositionFundsStatus p settlementPrice closingFeeRate).isProfitable
      deficitPositions := [], deficitAmountAbs := 0, surplusAmount := 0
      totalProfits := 0, totalPositivePayouts := 0 }
  rw [← hdata]
  refine ⟨h1.trans (zero_add _), ?_, h3.trans (zero_add _), h4.trans (zero_add _),
    congrFun h5⟩
  rw [getDerivativeSocializedLossData, h2, zero_add]

theorem haircut_of_isDeficit (deficit : D) {p : Position D}
    (hp : isDeficit settlementPrice closingFeeRate p = true) :
    haircut market data settlementPrice closingFeeRate deficit p = p := by
  simp only [isDeficit, Bool.and_eq_true, Bool.not_eq_true', decide_eq_true_eq] at hp
  have hrec := (lossData_sums hdata hmarket id rfl).2.2.2.2
  have hprofit : ∀ taken, profitHaircut market data settlementPrice taken p = p := by
    intro taken
    rw [profitHaircut, if_neg (by rw [hrec, hp.1]; decide)]
  have hpaying : ∀ f, modifyPaying settlementPrice closingFeeRate f p = p :=
    modifyPaying_of_not_pos (not_lt.mpr hp.2.le)
  simp only [haircut, payoutHaircut, hprofit, hpaying, ite_self]

theorem profitHaircut_derivative (taken : D) (p : Position D) :
    profitHaircut market data settlementPrice taken p =
      if (getPositionFundsStatus p settlementPrice closingFeeRate).isProfitable then
        p.applyProfitHaircutForDerivatives taken data.totalProfits settlementPrice
      else p := by
  rw [profitHaircut, (lossData_sums hdata hmarket id rfl).2.2.2.2, if_neg hmarket]

variable (hrefund : settlementPrice ≠ binaryOptionsMarketRefundFlagPrice)
  (hq : ∀ p ∈ positions, 0 < p.position.quantity)
include hrefund hq

/-- **THE SETTLED BALANCE**: deficit positions cancel out, and the balance after
    settlement is the balance with the insurance payment minus what is paid out. -/
theorem settled_balance :
    (settleMarket market bank funds marketFunding positions settlementPrice
        closingFeeRate).marketBalance =
      funds.marketBalance + newDec (insurancePayment market bank funds data) -
      ((fundedPositions market marketFunding positions).map fun p =>
        paidOut market bank funds settlementPrice closingFeeRate data p.position).sum := by
  obtain ⟨hpos, hdef, hbal⟩ := executeSocializedLoss_of_no_surplus hdata
    (lossData_surplus hdata hmarket)
  have hdsum := (lossData_sums hdata hmarket (toChainFormat · market.quoteDecimals)
    (toChainFormat_zero _)).2.2.2.1
  simp only [settleMarket, closeAllPositionsWithSettlePrice]
  rw [closingData_marketBalanceDelta, hpos, hdef, hbal, hdsum, List.map_map, sub_eq_add_neg,
    sub_eq_add_neg, ← neg_add, ← List.sum_map_add]
  congr 3
  refine List.map_congr_left fun p hp => ?_
  have hquantity := (fundedPositions_quantity hq p hp).ne'
  rw [deficitAmountAbs_eq, paidOut, Function.comp_apply, DerivativePosition.modify]
  by_cases hd : isDeficit settlementPrice closingFeeRate p.position = true
  · -- untouched by the waterfall, its negative payout and its deficit add up to zero
    rw [if_pos hd, if_pos hd, haircut_of_isDeficit hdata hmarket _ hd,
      chainPayout_eq hrefund hquantity, ← toChainFormat_add, add_neg_cancel, toChainFormat_zero]
  · rw [if_neg hd, if_neg hd, toChainFormat_zero, add_zero]

theorem settled_balance_nonneg_of_bankrupt
    (hd : 0 < remainingDeficit market bank funds data)
    (hprofits : data.totalProfits < remainingDeficit market bank funds data)
    (hpayouts : data.totalPositivePayouts < remainingDeficit market bank funds data)
    (hbalance : 0 ≤ funds.marketBalance + newDec (insurancePayment market bank funds data)) :
    0 ≤ (settleMarket market bank funds marketFunding positions settlementPrice
      closingFeeRate).marketBalance := by
  rw [settled_balance hdata hmarket hrefund hq, sub_nonneg]
  have hpaid : ∀ p ∈ fundedPositions market marketFunding positions,
      paidOut market bank funds settlementPrice closingFeeRate data p.position ≤ 0 := by
    intro p hp
    simp only [paidOut, haircut, if_pos hd, if_neg (not_le.mpr hprofits), payoutHaircut,
      if_neg (not_le.mpr (sub_lt_sub_right hpayouts _))]
    split
    · exact le_refl 0
    · exact chainPayout_closePaying_nonpos hrefund _
  calc _ ≤ ((fundedPositions market marketFunding positions).map fun _ => (0 : D)).sum :=
        List.sum_le_sum hpaid
    _ = 0 := by simp
    _ ≤ _ := hbalance

end Outcome

section HaircutPayouts

variable {D : Type} [DecArith D] {market : SettlementMarket} {bank : BankOutcomes}
  {funds : MarketFunds D} {marketFunding : Option (PerpetualMarketFunding D)}
  {positions : List (DerivativePosition D)} {settlementPrice : D}
  {data : SocializedLossData D}
  (hrefund : settlementPrice ≠ binaryOptionsMarketRefundFlagPrice)
  {p : Position D} (hq : p.quantity ≠ 0)
include hrefund hq

/-- An unprofitable position that no haircut reaches is paid its payout, or nothing. -/
theorem paidOut_of_unprofitable
    (hprof : ¬(getPositionFundsStatus p settlementPrice 0).isProfitable = true)
    (hcut : haircut market data settlementPrice 0 (remainingDeficit market bank funds data) p =
      p) :
    paidOut market bank funds settlementPrice 0 data p =
      toChainFormat (max (payoutAt settlementPrice 0 p) 0) market.quoteDecimals := by
  rw [paidOut, hcut, chainPayout_eq hrefund hq, isDeficit, Bool.eq_false_iff.mpr hprof]
  by_cases hneg : payoutAt settlementPrice 0 p < 0
  · rw [if_pos (by simpa using hneg), max_eq_right hneg.le, toChainFormat_zero]
  · rw [if_neg (by simpa using hneg), max_eq_left (not_lt.mp hneg)]

variable (hdata : lossData market funds marketFunding positions settlementPrice 0 = data)
  (hmarket : market.marketType ≠ .binaryOption)
include hdata hmarket

theorem paidOut_of_profits_cover (hd : 0 < remainingDeficit market bank funds data)
    (hle : remainingDeficit market bank funds data ≤ data.totalProfits) :
    paidOut market bank funds settlementPrice 0 data p =
      toChainFormat (profitCutPayout settlementPrice p (remainingDeficit market bank funds data)
        data.totalProfits) market.quoteDecimals := by
  have hcut : haircut market data settlementPrice 0 (remainingDeficit market bank funds data) p =
      if (getPositionFundsStatus p settlementPrice 0).isProfitable then
        p.applyProfitHaircutForDerivatives (remainingDeficit market bank funds data)
          data.totalProfits settlementPrice
      else p := by
    simp only [haircut, if_pos hd, if_pos hle, if_pos (hd.trans_le hle),
      profitHaircut_derivative hdata hmarket]
  rw [profitCutPayout]
  by_cases hprof : (getPositionFundsStatus p settlementPrice 0).isProfitable = true
  · rw [if_pos hprof] at hcut ⊢
    have hquantity := (applyProfitHaircut_spec settlementPrice p
      (remainingDeficit market bank funds data) data.totalProfits).2.1
    rw [paidOut, isProfitable_not_isDeficit _ _ hprof, if_neg Bool.false_ne_true, hcut,
      chainPayout_eq hrefund (hquantity ▸ hq), payoutAt_applyProfitHaircut]
  · rw [if_neg hprof] at hcut ⊢
    exact paidOut_of_unprofitable hrefund hq hprof hcut

omit hrefund hq in
/-- The first stage, when it takes all profits: it moves the entry price, and raises the
    margin of a position that would be left with a negative payout. -/
theorem profitStage_spec :
    let q := if 0 < data.totalProfits then
        profitHaircut market data settlementPrice data.totalProfits p else p
    let gap := gapWithoutProfits settlementPrice p data.totalProfits
    q.isLong = p.isLong ∧ q.quantity = p.quantity ∧ settlementPrice - q.entryPrice = gap ∧
      q.margin = if (getPositionFundsStatus p settlementPrice 0).isProfitable ∧
        0 < data.totalProfits then max p.margin (-pnlOver p gap) else p.margin := by
  intro q gap
  have hq' : q = if 0 < data.totalProfits then
      profitHaircut market data settlementPrice data.totalProfits p else p := rfl
  have hgap : gap = gapWithoutProfits settlementPrice p data.totalProfits := rfl
  rw [profitHaircut_derivative hdata hmarket] at hq'
  rw [gapWithoutProfits] at hgap
  by_cases hT : 0 < data.totalProfits
  · by_cases hprof : (getPositionFundsStatus p settlementPrice 0).isProfitable = true
    · rw [if_pos hT, if_pos hprof] at hq'
      rw [if_pos ⟨hprof, hT⟩] at hgap ⊢
      rw [hq', hgap]
      exact applyProfitHaircut_spec settlementPrice p data.totalProfits data.totalProfits
    · rw [if_pos hT, if_neg hprof] at hq'
      rw [if_neg fun h => hprof h.1] at hgap ⊢
      rw [hq', hgap]
      exact ⟨rfl, rfl, rfl, rfl⟩
  · rw [if_neg hT] at hq'
    rw [if_neg fun h => hT h.2] at hgap ⊢
    rw [hq', hgap]
    exact ⟨rfl, rfl, rfl, rfl⟩

theorem paidOut_of_payouts_cover (hd : 0 < remainingDeficit market bank funds data)
    (hlt : data.totalProfits < remainingDeficit market bank funds data)
    (hle : remainingDeficit market bank funds data ≤ data.totalPositivePayouts) :
    paidOut market bank funds settlementPrice 0 data p =
      toChainFormat (payoutCutPayout settlementPrice p (remainingDeficit market bank funds data)
        data.totalProfits data.totalPositivePayouts) market.quoteDecimals := by
  obtain ⟨hlong, hquantity, hgap, hmargin⟩ := profitStage_spec (p := p) hdata hmarket
  set q := if 0 < data.totalProfits then
    profitHaircut market data settlementPrice data.totalProfits p else p with hqdef
  set gap := gapWithoutProfits settlementPrice p data.totalProfits with hgapdef
  set d := remainingDeficit market bank funds data
  have hcut : haircut market data settlementPrice 0 d p = modifyPaying settlementPrice 0
      (fun q => q.applyTotalPositionPayoutHaircut (d - data.totalProfits)
        (data.totalPositivePayouts - data.totalProfits) settlementPrice) q := by
    simp only [haircut, if_pos hd, if_neg (not_le.mpr hlt), payoutHaircut,
      if_pos (sub_le_sub_right hle data.totalProfits), hqdef]
  have hover : ∀ g, pnlOver q g = pnlOver p g := by
    intro g
    rw [pnlOver, pnlOver, hlong, hquantity]
  have hpayout : payoutAt settlementPrice 0 q = pnlOver p gap + q.margin := by
    rw [payoutAt_eq, pnlAt, Position.getPayoutFromPnl, hgap, ← hover gap, pnlOver]
  have hunprofitable : ¬(getPositionFundsStatus p settlementPrice 0).isProfitable = true →
      gap = settlementPrice - p.entryPrice := fun hprof => if_neg fun h => hprof h.1
  rw [payoutCutPayout, ← hgapdef]
  by_cases hpay : 0 < pnlOver p gap + p.margin
  · have hsame : q.margin = p.margin := by
      rw [hmargin]
      split
      · exact max_eq_left (neg_le_iff_add_nonneg'.mpr hpay.le)
      · rfl
    have hdeficit : isDeficit settlementPrice 0 p = false := by
      by_cases hprof : (getPositionFundsStatus p settlementPrice 0).isProfitable = true
      · exact isProfitable_not_isDeficit _ _ hprof
      · rw [hunprofitable hprof] at hpay
        have hpos : ¬payoutAt settlementPrice 0 p < 0 := by
          rw [payoutAt_eq]
          exact not_lt.mpr hpay.le
        rw [isDeficit, decide_eq_false hpos, Bool.and_false]
    rw [paidOut, hdeficit, if_neg Bool.false_ne_true, hcut,
      modifyPaying_of_pos (by rwa [hpayout, hsame]), if_pos hpay, chainPayout_eq hrefund,
      payoutAt_applyTotalPayoutHaircut, hgap, hover, hsame]
    exact ((applyProfitHaircut_spec settlementPrice q _ _).2.1.trans hquantity).trans_ne hq
  · have hnot : ¬0 < payoutAt settlementPrice 0 q := by
      rw [hpayout, hmargin]
      split
      · rw [← max_add_add_left, add_neg_cancel, max_eq_right (not_lt.mp hpay)]
        exact lt_irrefl 0
      · exact hpay
    rw [modifyPaying_of_not_pos hnot] at hcut
    rw [if_neg hpay]
    by_cases hprof : (getPositionFundsStatus p settlementPrice 0).isProfitable = true
    · rw [paidOut, isProfitable_not_isDeficit _ _ hprof, if_neg Bool.false_ne_true, hcut,
        chainPayout_eq hrefund (hquantity.trans_ne hq)]
      by_cases hT : 0 < data.totalProfits
      · rw [if_neg fun h => (not_le.mpr hT) h.2, hpayout, hmargin, if_pos ⟨hprof, hT⟩,
          ← max_add_add_left, add_neg_cancel, max_eq_right (not_lt.mp hpay)]
      · rw [if_pos ⟨hprof, not_lt.mp hT⟩, hqdef, if_neg hT]
    · have hqp : q = p := by
        rw [hqdef, profitHaircut_derivative hdata hmarket, if_neg hprof, ite_self]
      rw [hqp] at hcut hnot
      rw [paidOut_of_unprofitable hrefund hq hprof hcut, max_eq_right (not_lt.mp hnot),
        if_neg fun h => hprof h.1]

end HaircutPayouts

/-! ## Rounded arithmetic: the early return -/

section Rounded

theorem fromChainFormat_toChainFormat (x : LegacyDec) (decimals : ℕ) :
    fromChainFormat (toChainFormat x decimals) decimals = x := by
  have hpos : (0 : ℤ) < 10 ^ decimals := by positivity
  have hP : ((LegacyDec.precision : ℕ) : ℤ) ≠ 0 := by decide
  ext
  rw [fromChainFormat, LegacyDec.raw_quo, toChainFormat_eq_zsmul, LegacyDec.raw_zsmul,
    LegacyDec.raw_newDec, Int.tdiv_eq_of_eq_mul_left (mul_ne_zero hpos.ne' hP)
      (show (10 ^ decimals * x.raw * LegacyDec.precision * LegacyDec.precision : ℤ) =
        x.raw * LegacyDec.precision * (10 ^ decimals * LegacyDec.precision) by ring),
    HalfEven.chopAndRound_mul LegacyDec.precision_pos]

theorem newDec_eq_toChainFormat (n : ℤ) {decimals : ℕ} (h : decimals ≤ 18) :
    (newDec n : LegacyDec) = toChainFormat ⟨n * 10 ^ (18 - decimals)⟩ decimals := by
  ext
  have hpow : ((LegacyDec.precision : ℕ) : ℤ) = 10 ^ decimals * 10 ^ (18 - decimals) := by
    rw [← pow_add, Nat.add_sub_cancel' h]; rfl
  rw [toChainFormat_eq_zsmul, LegacyDec.raw_zsmul, LegacyDec.raw_newDec, hpow]
  ring

theorem fromChainFormat_nonpos {x : LegacyDec} (h : x ≤ 0) (decimals : ℕ) :
    fromChainFormat x decimals ≤ 0 := by
  have hdiv : (x.raw * LegacyDec.precision * LegacyDec.precision).tdiv
      (newDec (10 ^ decimals) : LegacyDec).raw ≤ 0 := by
    have hnum : x.raw * LegacyDec.precision * LegacyDec.precision ≤ 0 :=
      mul_nonpos_of_nonpos_of_nonneg
        (mul_nonpos_of_nonpos_of_nonneg h (by positivity)) (by positivity)
    have hden : 0 ≤ (newDec (10 ^ decimals) : LegacyDec).raw := by
      rw [LegacyDec.raw_newDec]; positivity
    have hneg := Int.tdiv_nonneg (neg_nonneg.mpr hnum) hden
    rw [Int.neg_tdiv] at hneg
    exact neg_nonneg.mp hneg
  have hround := HalfEven.chopAndRound_mono LegacyDec.precision hdiv
  rwa [HalfEven.chopAndRound_zero] at hround

theorem toChainFormat_le_iff (x y : LegacyDec) (decimals : ℕ) :
    toChainFormat x decimals ≤ toChainFormat y decimals ↔ x ≤ y := by
  refine ⟨fun h => ?_, fun h => toChainFormat_mono h _⟩
  by_contra hlt
  have heq := le_antisymm h (toChainFormat_mono (not_le.mp hlt).le decimals)
  rw [← fromChainFormat_toChainFormat x decimals, heq, fromChainFormat_toChainFormat] at hlt
  exact hlt (le_refl y)

theorem toChainFormat_fromChainFormat_newDec (n : ℤ) {decimals : ℕ} (h : decimals ≤ 18) :
    toChainFormat (fromChainFormat (newDec n : LegacyDec) decimals) decimals = newDec n := by
  rw [newDec_eq_toChainFormat n h, fromChainFormat_toChainFormat]

section EarlyReturn

variable {market : SettlementMarket} {bank : BankOutcomes} {funds : MarketFunds LegacyDec}

theorem toChainFormat_remainingDeficit (data : SocializedLossData LegacyDec)
    (hdec : market.quoteDecimals ≤ 18) :
    toChainFormat (remainingDeficit market bank funds data) market.quoteDecimals =
      toChainFormat data.deficitAmountAbs market.quoteDecimals -
        newDec (insurancePayment market bank funds data) := by
  rw [remainingDeficit, newDec_eq_toChainFormat _ hdec, ← toChainFormat_sub,
    fromChainFormat_toChainFormat]

theorem insurancePayment_eq_fund (data : SocializedLossData LegacyDec)
    (hbank : bank.withdrawalSucceeds = true)
    (hd : 0 < remainingDeficit market bank funds data) :
    insurancePayment market bank funds data = funds.getInsuranceFundBalance := by
  set d := toChainFormat data.deficitAmountAbs market.quoteDecimals with hdef
  have hcovered : ¬d ≤ newDec (insurancePayment market bank funds data) := by
    intro hle
    exact absurd hd (not_lt.mpr (fromChainFormat_nonpos (sub_nonpos.mpr hle) _))
  rw [insurancePayment, ← hdef, MarketFunds.withdrawn, hbank] at hcovered ⊢
  by_cases h0 : d = 0
  · rw [if_pos h0, newDec_zero] at hcovered
    exact absurd h0.le hcovered
  · rw [if_neg h0, if_pos rfl] at hcovered ⊢
    cases hf : funds.insuranceFund with
    | none => rw [MarketFunds.getInsuranceFundBalance, hf]; rfl
    | some balance =>
      rw [hf] at hcovered
      rw [MarketFunds.getInsuranceFundBalance, hf]
      refine min_eq_left (le_of_not_ge fun hle => hcovered ?_)
      dsimp only
      rw [min_eq_right hle]
      exact le_newDec_ceilInt d

theorem insurancePayment_le_fund (data : SocializedLossData LegacyDec)
    (hfund : 0 ≤ funds.getInsuranceFundBalance) :
    insurancePayment market bank funds data ≤ funds.getInsuranceFundBalance := by
  rw [insurancePayment, MarketFunds.withdrawn]
  split
  · exact hfund
  · split
    · cases hf : funds.insuranceFund with
      | none => rw [MarketFunds.getInsuranceFundBalance, hf]; rfl
      | some balance =>
        rw [MarketFunds.getInsuranceFundBalance, hf]
        exact min_le_left _ _
    · exact hfund

/-- A deficit remains exactly when the whole fund does not cover it, and then it is the
    deficit without the fund. -/
theorem remainingDeficit_spec (data : SocializedLossData LegacyDec)
    (hdec : market.quoteDecimals ≤ 18) (hbank : bank.withdrawalSucceeds = true)
    (hfund : 0 ≤ funds.getInsuranceFundBalance) :
    let rest := data.deficitAmountAbs -
      fromChainFormat (newDec funds.getInsuranceFundBalance) market.quoteDecimals
    (0 < remainingDeficit market bank funds data ∧
        remainingDeficit market bank funds data = rest) ∨
      (remainingDeficit market bank funds data ≤ 0 ∧ rest ≤ 0) := by
  intro rest
  rcases le_or_gt (remainingDeficit market bank funds data) 0 with hd | hd
  · refine .inr ⟨hd, sub_nonpos.mpr ((toChainFormat_le_iff _ _ market.quoteDecimals).mp ?_)⟩
    have hcovered := toChainFormat_nonpos hd market.quoteDecimals
    rw [toChainFormat_remainingDeficit data hdec, sub_nonpos] at hcovered
    rw [toChainFormat_fromChainFormat_newDec _ hdec]
    exact hcovered.trans (newDec_le _ _ (insurancePayment_le_fund data hfund))
  · refine .inl ⟨hd, ?_⟩
    rw [← fromChainFormat_toChainFormat (remainingDeficit market bank funds data)
      market.quoteDecimals, toChainFormat_remainingDeficit data hdec,
      insurancePayment_eq_fund data hbank hd, ← toChainFormat_fromChainFormat_newDec _ hdec,
      ← toChainFormat_sub, fromChainFormat_toChainFormat]

variable {marketFunding : Option (PerpetualMarketFunding LegacyDec)}
  {positions : List (DerivativePosition LegacyDec)} {settlementPrice balance : LegacyDec}
  {data : SocializedLossData LegacyDec}

variable (hdata : lossData market funds marketFunding positions settlementPrice 0 = data)
  (hmarket : market.marketType ≠ .binaryOption)
  (hrefund : settlementPrice ≠ binaryOptionsMarketRefundFlagPrice)
  (hq : ∀ p ∈ positions, 0 < p.position.quantity) (hdec : market.quoteDecimals ≤ 18)
  (hbalance : funds.marketBalance = toChainFormat balance market.quoteDecimals)
include hdata hmarket hrefund hq hdec hbalance

variable (bank) in
/-- Where every payout is a rounded amount `paid`, the balance is what the cuts and the
    spare balance exceed the deficit by. -/
theorem settled_balance_nonneg_iff_cuts (paid : Position LegacyDec → LegacyDec)
    (hpaid : ∀ p ∈ fundedPositions market marketFunding positions,
      paidOut market bank funds settlementPrice 0 data p.position =
        toChainFormat (paid p.position) market.quoteDecimals) :
    0 ≤ (settleMarket market bank funds marketFunding positions settlementPrice
        0).marketBalance ↔
      remainingDeficit market bank funds data ≤
        balance + data.deficitAmountAbs - data.totalPositivePayouts +
          (((fundedPositions market marketFunding positions).map (·.position)).map fun p =>
            max (payoutAt settlementPrice 0 p) 0 - paid p).sum := by
  set ps := fundedPositions market marketFunding positions
  have hpayouts : data.totalPositivePayouts =
      ((ps.map (·.position)).map fun p => max (payoutAt settlementPrice 0 p) 0).sum := by
    rw [(lossData_sums hdata hmarket id rfl).2.2.1, List.map_map]; rfl
  have hsum : (ps.map fun p =>
      paidOut market bank funds settlementPrice 0 data p.position).sum =
        toChainFormat ((ps.map (·.position)).map paid).sum market.quoteDecimals := by
    rw [toChainFormat_sum, List.map_map, List.map_map]
    exact congrArg List.sum (List.map_congr_left hpaid)
  have hinsurance : (newDec (insurancePayment market bank funds data) : LegacyDec) =
      toChainFormat (data.deficitAmountAbs - remainingDeficit market bank funds data)
        market.quoteDecimals := by
    rw [toChainFormat_sub, toChainFormat_remainingDeficit data hdec, sub_sub_cancel]
  rw [settled_balance hdata hmarket hrefund hq, hsum, hinsurance, hbalance, ← toChainFormat_add,
    sub_nonneg, toChainFormat_le_iff, sum_map_sub, ← hpayouts]
  rw [← sub_nonneg, ← sub_nonneg (b := remainingDeficit market bank funds data)]
  refine iff_of_eq (congrArg (0 ≤ ·) ?_)
  abel

/-- Insurance covers the deficit: every payout is made in full, and they fit. -/
theorem settled_balance_nonneg_of_covered (hd : remainingDeficit market bank funds data ≤ 0) :
    0 ≤ (settleMarket market bank funds marketFunding positions settlementPrice
      0).marketBalance := by
  have hdeficit := (lossData_sums hdata hmarket id rfl).2.1
  rw [hbalance, fromChainFormat_toChainFormat] at hdeficit
  refine (settled_balance_nonneg_iff_cuts bank hdata hmarket hrefund hq hdec hbalance
    (fun p => if isDeficit settlementPrice 0 p then 0 else payoutAt settlementPrice 0 p) ?_).mpr
    (hd.trans (add_nonneg ?_ (List.sum_nonneg ?_)))
  · intro p hp
    rw [paidOut, haircut, if_neg (not_lt.mpr hd),
      chainPayout_eq hrefund (fundedPositions_quantity hq p hp).ne',
      apply_ite (toChainFormat · market.quoteDecimals), toChainFormat_zero]
  · rw [sub_nonneg, ← sub_le_iff_le_add']
    exact (le_max_right _ _).trans hdeficit.ge
  · refine List.forall_mem_map.mpr fun p _ => sub_nonneg.mpr ?_
    split
    · exact le_max_right _ _
    · exact le_max_left _ _

end EarlyReturn

end Rounded

/-- Three longs of one contract and a short of three, all entered at price one. At price
    two the short is bankrupt by one. -/
def samplePositions : List (DerivativePosition LegacyDec) :=
  [samplePosition 1 true 1 1, samplePosition 2 true 1 1, samplePosition 3 true 1 1,
    samplePosition 4 false 3 2]

/-- The funds are exactly the margins, in a quote of six decimals. -/
def sampleFunds : MarketFunds LegacyDec :=
  { marketBalance := newDec 5000000, insuranceFund := none }

/-- The bank carries out both transfers. -/
def sampleBank : BankOutcomes := { depositSucceeds := true, withdrawalSucceeds := true }

end ExchangeSettlement
