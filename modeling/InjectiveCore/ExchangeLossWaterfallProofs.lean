import InjectiveCore.ExchangeSocializedLossProofs

/-!
# The loss waterfall in exact arithmetic

Read without rounding, every stage of `executeSocializedLoss` has a closed form. With `h`
the share a stage takes, `y` the profit and `x` the payout of a position:

- the profit haircut scales `y` by `1 - h` and cuts the payout off at zero
  (`pnlOver_shave`);
- the payout haircut turns `x` into `(1 - h) * max x (h * y)`
  (`payoutAt_applyTotalPositionPayoutHaircut`).

The second formula shows what can go wrong. The payout haircut is meant for positions
without profit, whose profits the first stage has taken; then it is `(1 - h) * x`. But the
first stage is **skipped** when negative margins have eaten up the total profits, and a
position with a small payout out of a large profit is then paid more than before.
`loss_socialized_iff` says that this is all that can go wrong.

A binary options **refund** reuses the profit haircut with the assets in the place of the
profits. It divides by the assets where it should divide by the liabilities, and funds
stay behind whenever there is a deficit (`refund_leaves_funds_behind`).
-/

namespace ExchangeSettlement

open DecArith DeltaLedger ExchangeFees ExchangePosition ExchangeMarketFunds

/-! ## Exact arithmetic: the stages in closed form -/

section Exact

variable (settlementPrice : ℚ) (p : Position ℚ)

theorem pnlAt_sign (hq : 0 ≤ p.quantity) :
    if (getPositionFundsStatus p settlementPrice 0).isProfitable then
      0 ≤ pnlAt settlementPrice p
    else pnlAt settlementPrice p ≤ 0 := by
  simp only [getPositionFundsStatus, Position.getPayoutIfFullyClosing, pnlAt,
    Position.getPayoutFromPnl, mul_rat]
  cases p.isLong with
  | true =>
    simp only [Bool.true_and, Bool.not_true, Bool.false_and, Bool.or_false,
      decide_eq_true_eq, if_true]
    split
    · next h => exact mul_nonneg hq (sub_nonneg.mpr h.le)
    · next h => exact mul_nonpos_of_nonneg_of_nonpos hq (sub_nonpos.mpr (not_lt.mp h))
  | false =>
    simp only [Bool.false_and, Bool.not_false, Bool.true_and, Bool.false_or,
      decide_eq_true_eq, Bool.false_eq_true, if_false, Left.nonneg_neg_iff,
      Left.neg_nonpos_iff]
    split
    · next h => exact mul_nonpos_of_nonneg_of_nonpos hq (sub_nonpos.mpr h.le)
    · next h => exact mul_nonneg hq (sub_nonneg.mpr (not_lt.mp h))

/-- Without rounding, taking the share `h` of the price difference scales the profit by
    `1 - h`. -/
theorem pnlOver_shave (deficit total : ℚ) :
    pnlOver p (shave deficit total (settlementPrice - p.entryPrice)) =
      (1 - deficit / total) * pnlAt settlementPrice p := by
  simp only [pnlOver, shave, pnlAt, Position.getPayoutFromPnl, mul_rat, quo_rat]
  split <;> ring

/-- **PAYOUT HAIRCUT**: with `h` the share taken, a payout `x` of a position with profit
    `y` becomes `(1 - h) * max x (h * y)`. A position with a small payout out of a large
    profit and a negative margin is paid *more* than before. -/
theorem payoutAt_applyTotalPositionPayoutHaircut (deficit total : ℚ) :
    payoutAt settlementPrice 0
        (p.applyTotalPositionPayoutHaircut deficit total settlementPrice) =
      (1 - deficit / total) * max (payoutAt settlementPrice 0 p)
        (deficit / total * pnlAt settlementPrice p) := by
  rw [payoutAt_applyTotalPayoutHaircut, pnlOver_shave, payoutFrom, mul_rat, quo_rat]
  set y := pnlAt settlementPrice p with hy
  have hmax : max (payoutAt settlementPrice 0 p) (deficit / total * y) =
      y + max p.margin (-((1 - deficit / total) * y)) := by
    rw [payoutAt_eq, ← hy, ← max_add_add_left]
    congr 1; ring
  rw [hmax]
  ring

theorem payoutAt_closed : payoutAt settlementPrice 0 p.closePositionWithoutPayouts = 0 := by
  simp [payoutAt_eq, pnlAt, Position.closePositionWithoutPayouts, Position.getPayoutFromPnl]

/-! ## Exact arithmetic: one position through the waterfall -/

theorem profitAmount_exact :
    (getPositionFundsStatus p settlementPrice 0).profitAmount =
      if (getPositionFundsStatus p settlementPrice 0).isProfitable then
        pnlAt settlementPrice p + min p.margin 0
      else 0 := by
  simp only [getPositionFundsStatus, Position.getPayoutIfFullyClosing, pnlAt,
    DecArith.mul_zero, sub_zero]
  split
  · split
    · next h => rw [min_eq_left h.le]
    · next h => rw [min_eq_right (not_lt.mp h), add_zero]
  · rfl

/-- What cutting `p` to `q` must not do: raise a positive payout or turn it negative. -/
def Lowers (p q : Position ℚ) : Prop :=
  0 < payoutAt settlementPrice 0 p →
    payoutAt settlementPrice 0 q ≤ payoutAt settlementPrice 0 p ∧
      0 ≤ payoutAt settlementPrice 0 q

/-- The profit haircut takes at least its share of the profit, negative margins
    included, and raises nothing. -/
theorem profitHaircut_takes (hq : 0 ≤ p.quantity) (deficit total : ℚ) (h0 : 0 ≤ deficit / total)
    (h1 : deficit / total ≤ 1)
    (hprof : (getPositionFundsStatus p settlementPrice 0).isProfitable = true) :
    let q := p.applyProfitHaircutForDerivatives deficit total settlementPrice
    max (payoutAt settlementPrice 0 q) 0 ≤ max (payoutAt settlementPrice 0 p) 0 -
        deficit / total * (getPositionFundsStatus p settlementPrice 0).profitAmount ∧
      Lowers settlementPrice p q := by
  intro q
  have hpnl : 0 ≤ pnlAt settlementPrice p := by
    have h := pnlAt_sign settlementPrice p hq
    rwa [if_pos hprof] at h
  rw [profitAmount_exact, if_pos hprof, Lowers, payoutAt_applyProfitHaircut,
    pnlOver_shave, payoutAt_eq]
  generalize deficit / total = h at h0 h1
  generalize pnlAt settlementPrice p = y at hpnl
  generalize p.margin = m
  have hy : 0 ≤ h * y := mul_nonneg h0 hpnl
  refine ⟨?_, fun hpos => ⟨max_le (by linarith) hpos.le, le_max_right _ _⟩⟩
  rw [max_eq_left (le_max_right _ _)]
  rcases le_total 0 m with hm | hm
  · rw [min_eq_right hm, max_eq_left (add_nonneg hpnl hm)]
    refine max_le (by linarith) ?_
    have : 0 ≤ (1 - h) * y := mul_nonneg (by linarith) hpnl
    linarith
  · rw [min_eq_left hm]
    have hm' : h * m ≤ 0 := mul_nonpos_of_nonneg_of_nonpos h0 hm
    rcases le_total 0 (y + m) with hs | hs
    · rw [max_eq_left hs]
      have : 0 ≤ (1 - h) * (y + m) := mul_nonneg (by linarith) hs
      exact max_le (by linarith) (by linarith)
    · rw [max_eq_right hs]
      have : h * (y + m) ≤ 0 := mul_nonpos_of_nonneg_of_nonpos h0 hs
      exact max_le (by linarith) (by linarith)

theorem payoutHaircut_scales (q : Position ℚ) (deficit total : ℚ) (h0 : 0 ≤ deficit / total)
    (h1 : deficit / total ≤ 1) (hpnl : pnlAt settlementPrice q ≤ 0) :
    let r := modifyPaying settlementPrice 0
      (fun q => q.applyTotalPositionPayoutHaircut deficit total settlementPrice) q
    max (payoutAt settlementPrice 0 r) 0 =
        (1 - deficit / total) * max (payoutAt settlementPrice 0 q) 0 ∧
      (0 ≤ payoutAt settlementPrice 0 q →
        payoutAt settlementPrice 0 r ≤ payoutAt settlementPrice 0 q ∧
          0 ≤ payoutAt settlementPrice 0 r) := by
  intro r
  by_cases hpos : 0 < payoutAt settlementPrice 0 q
  · have hr : r = q.applyTotalPositionPayoutHaircut deficit total settlementPrice :=
      modifyPaying_of_pos hpos _
    have hpayout : payoutAt settlementPrice 0 r =
        (1 - deficit / total) * payoutAt settlementPrice 0 q := by
      rw [hr, payoutAt_applyTotalPositionPayoutHaircut, max_eq_left]
      exact (mul_nonpos_of_nonneg_of_nonpos h0 hpnl).trans hpos.le
    have hnn : 0 ≤ (1 - deficit / total) * payoutAt settlementPrice 0 q :=
      mul_nonneg (by linarith) hpos.le
    have htaken : 0 ≤ deficit / total * payoutAt settlementPrice 0 q := mul_nonneg h0 hpos.le
    rw [hpayout, max_eq_left hnn, max_eq_left hpos.le]
    exact ⟨rfl, fun _ => ⟨by linarith, hnn⟩⟩
  · have hr : r = q := modifyPaying_of_not_pos hpos _
    rw [hr, max_eq_right (not_lt.mp hpos), mul_zero]
    exact ⟨rfl, fun h => ⟨le_refl _, h⟩⟩

theorem closePaying_payout (q : Position ℚ) :
    let r := modifyPaying settlementPrice 0 Position.closePositionWithoutPayouts q
    max (payoutAt settlementPrice 0 r) 0 = 0 ∧
      (0 ≤ payoutAt settlementPrice 0 q → payoutAt settlementPrice 0 r = 0) := by
  intro r
  by_cases hpos : 0 < payoutAt settlementPrice 0 q
  · have hr : r = q.closePositionWithoutPayouts := modifyPaying_of_pos hpos _
    rw [hr, payoutAt_closed]
    exact ⟨max_self 0, fun _ => rfl⟩
  · have hr : r = q := modifyPaying_of_not_pos hpos _
    rw [hr]
    exact ⟨max_eq_right (not_lt.mp hpos), fun h => le_antisymm (not_lt.mp hpos) h⟩

end Exact

/-! ## Exact arithmetic: the whole market -/

section Waterfall

variable (market : SettlementMarket) (bank : BankOutcomes) (funds : MarketFunds ℚ)
  (marketFunding : Option (PerpetualMarketFunding ℚ))
  (positions : List (DerivativePosition ℚ)) (settlementPrice : ℚ)

/-- What socialising a loss is for: with the positions before (funding applied) and after
    it, the positive payouts fit into balance and insurance, no positive payout is raised
    or turned negative, and a deficit `d` within the profits is taken from all profits at
    the same rate. -/
@[mk_iff] structure LossSocialized : Prop where
  covered :
    ((executeSocializedLoss market bank funds marketFunding positions settlementPrice
        0).positions.map fun p => max (payoutAt settlementPrice 0 p.position) 0).sum ≤
      fromChainFormat (executeSocializedLoss market bank funds marketFunding positions
        settlementPrice 0).funds.marketBalance market.quoteDecimals
  lowered :
    List.Forall₂ (fun p q => Lowers settlementPrice p.position q.position)
      (fundedPositions market marketFunding positions)
      (executeSocializedLoss market bank funds marketFunding positions settlementPrice
        0).positions
  shared :
    let data := lossData market funds marketFunding positions settlementPrice 0
    let d := remainingDeficit market bank funds data
    (∀ p ∈ fundedPositions market marketFunding positions, 0 ≤ p.position.margin) →
    0 ≤ d → d ≤ data.totalProfits →
      List.Forall₂ (fun p q =>
          (getPositionFundsStatus p.position settlementPrice 0).isProfitable = true →
            pnlAt settlementPrice q.position =
              (1 - d / data.totalProfits) * pnlAt settlementPrice p.position)
        (fundedPositions market marketFunding positions)
        (executeSocializedLoss market bank funds marketFunding positions settlementPrice
          0).positions ∧
      ((fundedPositions market marketFunding positions).map fun p =>
          payoutAt settlementPrice 0 p.position).sum -
        ((executeSocializedLoss market bank funds marketFunding positions settlementPrice
          0).positions.map fun p => payoutAt settlementPrice 0 p.position).sum = d

/-- The payout haircut when it meets unreduced profits, because negative margins leave no
    total profit: the payouts it makes must not exceed the payouts before, nor together
    the funds. -/
def PayoutHaircutFits : Prop :=
  let data := lossData market funds marketFunding positions settlementPrice 0
  let d := remainingDeficit market bank funds data
  let h := (d - data.totalProfits) / (data.totalPositivePayouts - data.totalProfits)
  let cut := fun p : Position ℚ => (1 - h) *
    max (payoutAt settlementPrice 0 p) (h * pnlAt settlementPrice p)
  0 < d → data.totalProfits ≤ 0 → d ≤ data.totalPositivePayouts →
    (∀ p ∈ fundedPositions market marketFunding positions,
      0 < payoutAt settlementPrice 0 p.position →
        cut p.position ≤ payoutAt settlementPrice 0 p.position) ∧
    ((fundedPositions market marketFunding positions).map fun p =>
        if 0 < payoutAt settlementPrice 0 p.position then cut p.position else 0).sum ≤
      fromChainFormat (funds.marketBalance + newDec (insurancePayment market bank funds data))
        market.quoteDecimals

theorem remainingDeficit_exact (data : SocializedLossData ℚ) :
    remainingDeficit market bank funds data = data.deficitAmountAbs -
      fromChainFormat (newDec (insurancePayment market bank funds data)) market.quoteDecimals := by
  have hscale : (10 ^ market.quoteDecimals : ℚ) ≠ 0 := by positivity
  simp only [remainingDeficit, fromChainFormat, toChainFormat, quo_rat, mul_rat, newDec_rat]
  push_cast
  field_simp

theorem insurancePayment_nonneg (data : SocializedLossData ℚ)
    (hfund : 0 ≤ funds.getInsuranceFundBalance) (hd : 0 ≤ data.deficitAmountAbs) :
    0 ≤ insurancePayment market bank funds data := by
  have hceil : (0 : ℤ) ≤ ceilInt (toChainFormat data.deficitAmountAbs market.quoteDecimals) := by
    refine Int.ceil_nonneg ?_
    simp only [toChainFormat, mul_rat, newDec_rat]
    positivity
  simp only [insurancePayment, MarketFunds.withdrawn]
  split
  · exact le_refl 0
  · split
    · cases hf : funds.insuranceFund with
      | none => exact le_refl 0
      | some balance =>
        rw [MarketFunds.getInsuranceFundBalance, hf] at hfund
        exact le_min hfund hceil
    · exact le_refl 0

section Derivative

variable {market bank funds marketFunding positions settlementPrice}
  {data : SocializedLossData ℚ}
  (hdata : lossData market funds marketFunding positions settlementPrice 0 = data)
  (hmarket : market.marketType ≠ .binaryOption)
include hdata hmarket

theorem lossData_deficit_nonneg : 0 ≤ data.deficitAmountAbs := by
  rw [(lossData_sums hdata hmarket id rfl).2.1]
  refine le_max_of_le_left (List.sum_nonneg (List.forall_mem_map.mpr ?_))
  intro p _
  rw [deficitAmountAbs_eq]
  split
  · next h =>
      simp only [isDeficit, Bool.and_eq_true, decide_eq_true_eq] at h
      exact neg_nonneg.mpr h.2.le
  · exact le_refl 0

theorem pnlAt_profitHaircut_full (p : Position ℚ) (hquantity : 0 ≤ p.quantity)
    (hpos : 0 < data.totalProfits) :
    pnlAt settlementPrice (profitHaircut market data settlementPrice data.totalProfits p) ≤
      0 := by
  have hsign := pnlAt_sign settlementPrice p hquantity
  rw [profitHaircut_derivative hdata hmarket]
  by_cases hprof : (getPositionFundsStatus p settlementPrice 0).isProfitable = true
  · rw [if_pos hprof, pnlAt_applyProfitHaircut, pnlOver_shave, div_self hpos.ne',
      sub_self, zero_mul]
  · rwa [if_neg hprof] at hsign ⊢

section Haircut

variable (hq : ∀ p ∈ positions, 0 < p.position.quantity)
include hq

/-- The profit haircut over all positions, taking the share `taken / totalProfits`. -/
theorem sum_profitHaircut_le {taken : ℚ} (h0 : 0 ≤ taken / data.totalProfits)
    (h1 : taken / data.totalProfits ≤ 1) :
    let ps := fundedPositions market marketFunding positions
    (ps.map fun p => max (payoutAt settlementPrice 0
        (profitHaircut market data settlementPrice taken p.position)) 0).sum ≤
        data.totalPositivePayouts - taken / data.totalProfits * data.totalProfits ∧
      ∀ p ∈ ps, Lowers settlementPrice p.position
        (profitHaircut market data settlementPrice taken p.position) := by
  intro ps
  obtain ⟨htp, -, htpp, -, -⟩ := lossData_sums hdata hmarket id rfl
  have hone : ∀ p ∈ ps,
      max (payoutAt settlementPrice 0
          (profitHaircut market data settlementPrice taken p.position)) 0 ≤
        max (payoutAt settlementPrice 0 p.position) 0 - taken / data.totalProfits *
          (getPositionFundsStatus p.position settlementPrice 0).profitAmount ∧
      Lowers settlementPrice p.position
        (profitHaircut market data settlementPrice taken p.position) := by
    intro p hp
    have hquantity := fundedPositions_quantity hq p hp
    rw [profitHaircut_derivative hdata hmarket]
    by_cases hprof : (getPositionFundsStatus p.position settlementPrice 0).isProfitable = true
    · rw [if_pos hprof]
      exact profitHaircut_takes settlementPrice p.position hquantity.le taken _ h0 h1 hprof
    · rw [if_neg hprof, profitAmount_exact, if_neg hprof, mul_zero, sub_zero]
      exact ⟨le_refl _, fun hpos => ⟨le_refl _, hpos.le⟩⟩
  refine ⟨?_, fun p hp => (hone p hp).2⟩
  refine (List.sum_le_sum fun p hp => (hone p hp).1).trans_eq ?_
  rw [sum_map_sub, List.sum_map_mul_left, ← htp, ← htpp]

/-- With non-negative margins each profitable position loses its share of its profit. -/
theorem payout_sub_profitHaircut {d : ℚ} (hpos : 0 < data.totalProfits)
    (hle : d ≤ data.totalProfits) {p : DerivativePosition ℚ}
    (hp : p ∈ fundedPositions market marketFunding positions) (hmargin : 0 ≤ p.position.margin) :
    payoutAt settlementPrice 0 p.position - payoutAt settlementPrice 0
        (profitHaircut market data settlementPrice d p.position) =
      d / data.totalProfits *
        (getPositionFundsStatus p.position settlementPrice 0).profitAmount := by
  rw [profitHaircut_derivative hdata hmarket, profitAmount_exact]
  by_cases hprof : (getPositionFundsStatus p.position settlementPrice 0).isProfitable = true
  · have hpnl := pnlAt_sign settlementPrice p.position (fundedPositions_quantity hq p hp).le
    rw [if_pos hprof] at hpnl
    have hshare : 0 ≤ (1 - d / data.totalProfits) * pnlAt settlementPrice p.position :=
      mul_nonneg (sub_nonneg.mpr ((div_le_one hpos).mpr hle)) hpnl
    rw [if_pos hprof, if_pos hprof, payoutAt_applyProfitHaircut, pnlOver_shave, payoutAt_eq,
      min_eq_right hmargin, max_eq_left (add_nonneg hshare hmargin)]
    ring
  · rw [if_neg hprof, if_neg hprof, sub_self, mul_zero]

end Haircut

variable {d : ℚ} (hrest : remainingDeficit market bank funds data = d)
include hrest

theorem lossSocialized_iff_haircut :
    let ps := fundedPositions market marketFunding positions
    let cut := haircut market data settlementPrice 0 d
    LossSocialized market bank funds marketFunding positions settlementPrice ↔
      ((ps.map fun p => max (payoutAt settlementPrice 0 (cut p.position)) 0).sum ≤
        fromChainFormat (funds.marketBalance +
          newDec (insurancePayment market bank funds data)) market.quoteDecimals) ∧
      (∀ p ∈ ps, Lowers settlementPrice p.position (cut p.position)) ∧
      ((∀ p ∈ ps, 0 ≤ p.position.margin) → 0 ≤ d → d ≤ data.totalProfits →
        (∀ p ∈ ps,
          (getPositionFundsStatus p.position settlementPrice 0).isProfitable = true →
            pnlAt settlementPrice (cut p.position) =
              (1 - d / data.totalProfits) * pnlAt settlementPrice p.position) ∧
        (ps.map fun p => payoutAt settlementPrice 0 p.position).sum -
          (ps.map fun p => payoutAt settlementPrice 0 (cut p.position)).sum = d) := by
  intro ps cut
  obtain ⟨hpos, -, hbal⟩ :=
    executeSocializedLoss_of_no_surplus hdata (lossData_surplus hdata hmarket)
  have hiff := lossSocialized_iff market bank funds marketFunding positions settlementPrice
  rw [hpos, hbal] at hiff
  simpa only [hdata, hrest, List.map_map, List.forall₂_map_right_iff, List.forall₂_same,
    Function.comp_def, DerivativePosition.modify] using hiff

theorem sub_remainingDeficit_le :
    data.totalPositivePayouts - d ≤
      fromChainFormat (funds.marketBalance + newDec (insurancePayment market bank funds data))
        market.quoteDecimals := by
  have hle : data.totalPositivePayouts -
      fromChainFormat funds.marketBalance market.quoteDecimals ≤ data.deficitAmountAbs := by
    rw [(lossData_sums hdata hmarket id rfl).2.1]
    exact le_max_right _ _
  rw [← hrest, remainingDeficit_exact]
  simp only [fromChainFormat, quo_rat, newDec_rat] at hle ⊢
  rw [add_div]
  linarith

theorem lossSocialized_of_covered (hd : d ≤ 0) :
    LossSocialized market bank funds marketFunding positions settlementPrice := by
  have hfit := sub_remainingDeficit_le hdata hmarket hrest
  obtain ⟨-, -, htpp, -, -⟩ := lossData_sums hdata hmarket id rfl
  refine (lossSocialized_iff_haircut hdata hmarket hrest).mpr ?_
  simp only [haircut, if_neg (not_lt.mpr hd)]
  refine ⟨?_, fun p _ hpos => ⟨le_refl _, hpos.le⟩, ?_⟩
  · rw [← htpp]
    linarith
  · intro _ hnn _
    rw [le_antisymm hd hnn]
    exact ⟨fun p _ _ => by rw [zero_div, sub_zero, one_mul], sub_self _⟩

/-- The profit haircut is skipped: the payout haircut meets unreduced profits. -/
theorem lossSocialized_iff_of_skipped (hd : 0 < d) (hskip : data.totalProfits ≤ 0)
    (hle : d ≤ data.totalPositivePayouts) :
    LossSocialized market bank funds marketFunding positions settlementPrice ↔
      PayoutHaircutFits market bank funds marketFunding positions settlementPrice := by
  refine (lossSocialized_iff_haircut hdata hmarket hrest).trans ?_
  simp only [PayoutHaircutFits, hdata, hrest, hd, hskip, hle, true_imp_iff]
  have hlt : data.totalProfits < d := hskip.trans_lt hd
  have hsub : d - data.totalProfits ≤ data.totalPositivePayouts - data.totalProfits :=
    sub_le_sub_right hle _
  have htotal : 0 < data.totalPositivePayouts - data.totalProfits := (sub_pos.mpr hlt).trans_le hsub
  set h := (d - data.totalProfits) / (data.totalPositivePayouts - data.totalProfits) with hh
  have hkeep : 0 ≤ 1 - h := sub_nonneg.mpr ((div_le_one htotal).mpr hsub)
  simp only [haircut, if_pos hd, if_neg (not_lt.mpr hskip), if_neg (not_le.mpr hlt),
    payoutHaircut, if_pos hsub]
  -- a paying position is cut to the closed form, the others stay
  have hcut : ∀ p : DerivativePosition ℚ,
      payoutAt settlementPrice 0 (modifyPaying settlementPrice 0 (fun q =>
          q.applyTotalPositionPayoutHaircut (d - data.totalProfits)
            (data.totalPositivePayouts - data.totalProfits) settlementPrice) p.position) =
        if 0 < payoutAt settlementPrice 0 p.position then
          (1 - h) * max (payoutAt settlementPrice 0 p.position)
            (h * pnlAt settlementPrice p.position)
        else payoutAt settlementPrice 0 p.position := by
    intro p
    by_cases hpos : 0 < payoutAt settlementPrice 0 p.position
    · rw [if_pos hpos, modifyPaying_of_pos hpos, payoutAt_applyTotalPositionPayoutHaircut]
    · rw [if_neg hpos, modifyPaying_of_not_pos hpos]
  have hmax : ∀ p : DerivativePosition ℚ,
      max (if 0 < payoutAt settlementPrice 0 p.position then
          (1 - h) * max (payoutAt settlementPrice 0 p.position)
            (h * pnlAt settlementPrice p.position)
        else payoutAt settlementPrice 0 p.position) 0 =
      if 0 < payoutAt settlementPrice 0 p.position then
        (1 - h) * max (payoutAt settlementPrice 0 p.position) (h * pnlAt settlementPrice p.position)
      else 0 := by
    intro p
    split
    · next hpos => exact max_eq_left (mul_nonneg hkeep (hpos.le.trans (le_max_left _ _)))
    · next hpos => exact max_eq_right (not_lt.mp hpos)
  simp only [Lowers, hcut, hmax]
  constructor
  · rintro ⟨hsum, hlow, -⟩
    refine ⟨fun p hp hpos => ?_, hsum⟩
    have hp' := (hlow p hp hpos).1
    rwa [if_pos hpos] at hp'
  · rintro ⟨hlow, hsum⟩
    refine ⟨hsum, fun p hp hpos => ?_, fun _ _ h => absurd h (not_le.mpr hlt)⟩
    rw [if_pos hpos]
    exact ⟨hlow p hp hpos, mul_nonneg hkeep (hpos.le.trans (le_max_left _ _))⟩

variable (hq : ∀ p ∈ positions, 0 < p.position.quantity)
include hq

theorem lossSocialized_of_profits (hd : 0 < d) (hle : d ≤ data.totalProfits) :
    LossSocialized market bank funds marketFunding positions settlementPrice := by
  have hpos := hd.trans_le hle
  obtain ⟨hsum, hlow⟩ := sum_profitHaircut_le hdata hmarket hq
    (div_nonneg hd.le hpos.le) ((div_le_one hpos).mpr hle)
  refine (lossSocialized_iff_haircut hdata hmarket hrest).mpr ?_
  simp only [haircut, if_pos hd, if_pos hpos, if_pos hle]
  rw [div_mul_cancel₀ _ hpos.ne'] at hsum
  refine ⟨hsum.trans (sub_remainingDeficit_le hdata hmarket hrest), hlow, ?_⟩
  intro hmargin _ _
  refine ⟨?_, ?_⟩
  · intro p _ hprof
    rw [profitHaircut_derivative hdata hmarket, if_pos hprof]
    rw [pnlAt_applyProfitHaircut, pnlOver_shave]
  · rw [← sum_map_sub, List.map_congr_left fun p hp =>
      payout_sub_profitHaircut hdata hmarket hq hpos hle hp (hmargin p hp),
      List.sum_map_mul_left, ← (lossData_sums hdata hmarket id rfl).1,
      div_mul_cancel₀ _ hpos.ne']

theorem lossSocialized_of_payouts (hpos : 0 < data.totalProfits) (hlt : data.totalProfits < d)
    (hle : d ≤ data.totalPositivePayouts) :
    LossSocialized market bank funds marketFunding positions settlementPrice := by
  have hfit := sub_remainingDeficit_le hdata hmarket hrest
  have hself := div_self hpos.ne'
  obtain ⟨hsum, hlow⟩ :=
    sum_profitHaircut_le hdata hmarket hq (zero_le_one.trans_eq hself.symm) hself.le
  refine (lossSocialized_iff_haircut hdata hmarket hrest).mpr ?_
  have hsub : d - data.totalProfits ≤ data.totalPositivePayouts - data.totalProfits :=
    sub_le_sub_right hle _
  have htotal : 0 < data.totalPositivePayouts - data.totalProfits := (sub_pos.mpr hlt).trans_le hsub
  simp only [haircut, if_pos (hpos.trans hlt), if_pos hpos, if_neg (not_le.mpr hlt),
    payoutHaircut, if_pos hsub]
  have hscale := fun p hp => payoutHaircut_scales settlementPrice
    (profitHaircut market data settlementPrice data.totalProfits p)
    (d - data.totalProfits) (data.totalPositivePayouts - data.totalProfits)
    (div_nonneg (sub_pos.mpr hlt).le htotal.le) ((div_le_one htotal).mpr hsub)
    (pnlAt_profitHaircut_full hdata hmarket p hp hpos)
  have hquantity : ∀ p ∈ fundedPositions market marketFunding positions,
      0 ≤ p.position.quantity := fun p hp => (fundedPositions_quantity hq p hp).le
  refine ⟨?_, ?_, fun _ _ h => absurd h (not_le.mpr hlt)⟩
  · -- the second haircut scales what the first one left, at most all payouts but profits
    rw [List.map_congr_left fun p hp => (hscale p.position (hquantity p hp)).1,
      List.sum_map_mul_left]
    rw [hself, one_mul] at hsum
    have hkeep : 0 ≤ 1 - (d - data.totalProfits) /
        (data.totalPositivePayouts - data.totalProfits) :=
      sub_nonneg.mpr ((div_le_one htotal).mpr hsub)
    refine (mul_le_mul_of_nonneg_left hsum hkeep).trans (le_trans (le_of_eq ?_) hfit)
    rw [sub_mul, div_mul_cancel₀ _ htotal.ne']
    ring
  · intro p hp hbefore
    obtain ⟨h1, h2⟩ := hlow p hp hbefore
    obtain ⟨h3, h4⟩ := (hscale p.position (hquantity p hp)).2 h2
    exact ⟨h3.trans h1, h4⟩

theorem lossSocialized_of_bankrupt (hbalance : 0 ≤ funds.marketBalance)
    (hfund : 0 ≤ funds.getInsuranceFundBalance) (hd : 0 < d) (hlt : data.totalProfits < d)
    (hno : data.totalPositivePayouts < d) :
    LossSocialized market bank funds marketFunding positions settlementPrice := by
  have hlow : ∀ p ∈ fundedPositions market marketFunding positions,
      Lowers settlementPrice p.position
        (if 0 < data.totalProfits then
          profitHaircut market data settlementPrice data.totalProfits p.position
        else p.position) := by
    intro p hp
    split
    · next hpos =>
        have hself := div_self hpos.ne'
        exact (sum_profitHaircut_le hdata hmarket hq (zero_le_one.trans_eq hself.symm)
          hself.le).2 p hp
    · exact fun hbefore => ⟨le_refl _, hbefore.le⟩
  have hpayment := insurancePayment_nonneg market bank funds data hfund
    (lossData_deficit_nonneg hdata hmarket)
  refine (lossSocialized_iff_haircut hdata hmarket hrest).mpr ?_
  have hsub : ¬d - data.totalProfits ≤ data.totalPositivePayouts - data.totalProfits :=
    fun h => absurd hno (not_lt.mpr (sub_le_sub_iff_right _ |>.mp h))
  simp only [haircut, if_pos hd, if_neg (not_le.mpr hlt), payoutHaircut, if_neg hsub]
  refine ⟨?_, ?_, fun _ _ h => absurd h (not_le.mpr hlt)⟩
  · rw [List.map_congr_left fun p _ => (closePaying_payout settlementPrice _).1]
    simp only [List.map_const', List.sum_replicate, smul_zero, fromChainFormat, quo_rat, newDec_rat]
    push_cast
    have : (0 : ℚ) ≤ insurancePayment market bank funds data := by exact_mod_cast hpayment
    positivity
  · intro p hp hbefore
    have hzero := (closePaying_payout settlementPrice _).2 (hlow p hp hbefore).2
    rw [hzero]
    exact ⟨hbefore.le, le_refl 0⟩

end Derivative

/-- **SOCIALISED LOSS, EXACT**: insurance, profit haircut, payout haircut and bankruptcy
    cover the deficit, raise no payout and share it equally, if and only if the payout
    haircut fits where the profit haircut was skipped for lack of total profits. -/
theorem loss_socialized_iff (hmarket : market.marketType ≠ .binaryOption)
    (hq : ∀ p ∈ positions, 0 < p.position.quantity) (hbalance : 0 ≤ funds.marketBalance)
    (hfund : 0 ≤ funds.getInsuranceFundBalance) :
    LossSocialized market bank funds marketFunding positions settlementPrice ↔
      PayoutHaircutFits market bank funds marketFunding positions settlementPrice := by
  generalize hdata : lossData market funds marketFunding positions settlementPrice 0 = data
  generalize hrest : remainingDeficit market bank funds data = d
  by_cases hd : 0 < d
  · by_cases hle : d ≤ data.totalProfits
    · exact iff_of_true (lossSocialized_of_profits hdata hmarket hrest hq hd hle)
        (fun _ h _ => absurd (hd.trans_le hle) (not_lt.mpr (hdata ▸ h)))
    · by_cases hpay : d ≤ data.totalPositivePayouts
      · by_cases hpos : 0 < data.totalProfits
        · exact iff_of_true
            (lossSocialized_of_payouts hdata hmarket hrest hq hpos (not_le.mp hle) hpay)
            (fun _ h _ => absurd hpos (not_lt.mpr (hdata ▸ h)))
        · exact lossSocialized_iff_of_skipped hdata hmarket hrest hd (not_lt.mp hpos) hpay
      · exact iff_of_true
          (lossSocialized_of_bankrupt hdata hmarket hrest hq hbalance hfund hd (not_le.mp hle)
            (not_le.mp hpay))
          (fun _ _ h => absurd (hrest ▸ hdata ▸ h) hpay)
  · exact iff_of_true (lossSocialized_of_covered hdata hmarket hrest (not_lt.mp hd))
      (fun h => absurd (hrest ▸ hdata ▸ h) hd)

end Waterfall

/-- A position in exact arithmetic. -/
def exactPosition (n : ℕ) (isLong : Bool) (quantity entryPrice margin : ℚ) :
    DerivativePosition ℚ :=
  { subaccountID := BitVec.ofNat 256 n
    position := { isLong := isLong, quantity := quantity, entryPrice := entryPrice
                  margin := margin, cumulativeFundingEntry := none } }

/-- A market whose chain format is the human readable one. -/
def exactMarket (marketType : MarketType) : SettlementMarket :=
  { marketType := marketType, quoteDecimals := 0, oracleScaleFactor := 0 }

/-- Two contracts settled at two: the bankrupt short leaves a deficit of one, shared by
    the profits of both longs. -/
theorem loss_socialized_iff_sample :
    LossSocialized (exactMarket .expiry) sampleBank ⟨3, some 0⟩ none
      [exactPosition 1 true 1 1 1, exactPosition 2 true 1 1 1, exactPosition 3 false 2 1 1]
      2 :=
  (loss_socialized_iff (exactMarket .expiry) sampleBank ⟨3, some 0⟩ none
    [exactPosition 1 true 1 1 1, exactPosition 2 true 1 1 1, exactPosition 3 false 2 1 1] 2
    (by decide) (by decide +kernel) (by decide +kernel) (by decide +kernel)).mpr
    (fun _ h _ => absurd h (by decide +kernel))

/-- Funding has eaten the margins of two longs: one is owed a tenth out of a profit of
    ten, the other has lost more than its profit, and together they have no profit. Half
    of all payouts should be cut; the first long is then paid two and a half, and the
    payouts of 52.5 exceed the balance of 50.5. -/
theorem payout_haircut_raises_payout :
    ¬LossSocialized (exactMarket .perpetual) sampleBank ⟨101 / 2, none⟩ none
      [exactPosition 1 true 1 0 (-99 / 10), exactPosition 2 true 1 9 (-2),
        exactPosition 3 false 2 9 102] 10 := by
  intro h
  exact absurd h.covered (by decide +kernel)

/-! ## Exact arithmetic: the refund of a binary options market -/

section Refund

variable (market : SettlementMarket) (bank : BankOutcomes) (funds : MarketFunds ℚ)
  (positions : List (DerivativePosition ℚ))

/-- The liabilities of a refund, the margins of all positions. -/
def liabilities : ℚ := (positions.map fun p => p.position.margin).sum

/-- The assets of a refund, as `getBinaryOptionsSocializedLossDataWithRefundFlag`
    computes them. -/
def assets : ℚ :=
  (lossData market funds none positions binaryOptionsMarketRefundFlagPrice 0).totalProfits

/-- The insurance payment, human readable. -/
def insured : ℚ :=
  fromChainFormat (newDec (insurancePayment market bank funds
    (lossData market funds none positions binaryOptionsMarketRefundFlagPrice 0)))
    market.quoteDecimals

/-- What closing by refunding pays to all positions after the haircut. -/
def refunded : ℚ :=
  ((executeSocializedLoss market bank funds none positions binaryOptionsMarketRefundFlagPrice
    0).positions.map fun p =>
      (closePosition binaryOptionsMarketRefundFlagPrice 0 p.position).payout).sum

theorem getTotalMarginAndQuantity_eq :
    getTotalMarginAndQuantity positions =
      (liabilities positions, (positions.map fun p => p.position.quantity).sum) := by
  have hfold : ∀ (ps : List (DerivativePosition ℚ)) (t : ℚ × ℚ),
      ps.foldl (fun t p => (t.1 + p.position.margin, t.2 + p.position.quantity)) t =
        (t.1 + (ps.map fun p => p.position.margin).sum,
          t.2 + (ps.map fun p => p.position.quantity).sum) := by
    intro ps
    induction ps with
    | nil => intro t; simp
    | cons p rest ih =>
      intro t
      rw [List.foldl_cons, ih, List.map_cons, List.map_cons, List.sum_cons, List.sum_cons,
        ← add_assoc, ← add_assoc]
  rw [getTotalMarginAndQuantity, hfold, zero_add, zero_add]
  rfl

theorem closePosition_refund (p : Position ℚ) :
    (closePosition binaryOptionsMarketRefundFlagPrice 0 p).payout =
      if p.quantity = 0 then 0 else p.margin := by
  rw [closePosition, if_pos rfl, Position.closePositionByRefunding]
  split
  · next h => exact closePosition_payout_of_zero p _ _ h
  · next h =>
      rw [(closePositionWithSettlePrice_spec p _ _ h).1]
      simp [Position.getPayoutIfFullyClosing, Position.getPayoutFromPnl]

section Haircut

variable {market bank funds positions} (hmarket : market.marketType = .binaryOption)
include hmarket

theorem lossData_refund_eq :
    lossData market funds none positions binaryOptionsMarketRefundFlagPrice 0 =
      getBinaryOptionsSocializedLossDataWithRefundFlag market positions
        (fromChainFormat funds.marketBalance market.quoteDecimals) := by
  rw [lossData, socializedLossData, if_pos hmarket, getBinaryOptionsSocializedLossData,
    if_pos rfl, fundedPositions, if_pos hmarket]

theorem assets_eq :
    assets market funds positions =
      (positions.map fun p => p.position.quantity).sum * 10 ^ market.oracleScaleFactor / 2 := by
  rw [assets, lossData_refund_eq hmarket]
  simp only [getBinaryOptionsSocializedLossDataWithRefundFlag, getTotalMarginAndQuantity_eq,
    getScaledPrice, mul_rat, quo_rat, newDec_rat]
  push_cast
  rfl

theorem assets_pos (hq : ∀ p ∈ positions, 0 < p.position.quantity)
    (hlt : assets market funds positions < liabilities positions) :
    0 < assets market funds positions := by
  rw [assets_eq hmarket] at hlt ⊢
  have hne : positions.map (fun p => p.position.quantity) ≠ [] := by
    intro hnil
    rw [List.map_eq_nil_iff] at hnil
    subst hnil
    simp [liabilities] at hlt
  have hsum : 0 < (positions.map fun p => p.position.quantity).sum :=
    List.sum_pos _ (List.forall_mem_map.mpr hq) hne
  positivity

theorem insured_nonneg (hfund : 0 ≤ funds.getInsuranceFundBalance) :
    0 ≤ insured market bank funds positions := by
  have hdeficit : 0 ≤ (lossData market funds none positions
      binaryOptionsMarketRefundFlagPrice 0).deficitAmountAbs := by
    rw [lossData_refund_eq hmarket]
    exact le_max_of_le_left (le_max_right _ _)
  have hpay : (0 : ℚ) ≤ insurancePayment market bank funds (lossData market funds none
      positions binaryOptionsMarketRefundFlagPrice 0) := by
    exact_mod_cast insurancePayment_nonneg market bank funds _ hfund hdeficit
  rw [insured, fromChainFormat, quo_rat, newDec_rat, newDec_rat]
  positivity

variable {data : SocializedLossData ℚ}
  (hdata : lossData market funds none positions binaryOptionsMarketRefundFlagPrice 0 = data)
  {A L : ℚ} (hA : assets market funds positions = A)
include hdata hA

theorem lossData_refund (hL : liabilities positions = L) (hlt : A < L) :
    data.deficitAmountAbs =
        max (L - A) (L - fromChainFormat funds.marketBalance market.quoteDecimals) ∧
      data.surplusAmount = 0 ∧ data.totalPositivePayouts = 0 := by
  have hprofits : data.totalProfits = A := by rw [← hdata, ← hA, assets]
  rw [← hdata, lossData_refund_eq hmarket] at hprofits ⊢
  simp only [getBinaryOptionsSocializedLossDataWithRefundFlag,
    getTotalMarginAndQuantity_eq, hL] at hprofits ⊢
  rw [hprofits, max_eq_left (sub_pos.mpr hlt).le, max_eq_right (sub_neg.mpr hlt).le, zero_add]
  exact ⟨rfl, if_pos (lt_max_of_lt_left (sub_pos.mpr hlt)), trivial⟩

/-- The haircut of a refund takes the share `taken / A` of every margin. -/
theorem profitHaircut_refund (taken : ℚ) (p : Position ℚ) :
    let q := profitHaircut market data binaryOptionsMarketRefundFlagPrice taken p
    q.margin = p.margin - taken * p.margin / A ∧ q.quantity = p.quantity := by
  have hrec : data.receivesHaircut p = true := by rw [← hdata, lossData_refund_eq hmarket]; rfl
  simp only [profitHaircut, hrec, if_true, if_pos hmarket, ← hA, assets, hdata]
  exact ⟨rfl, rfl⟩

theorem payout_haircut_refund (hpayouts : data.totalPositivePayouts = 0) (hpos : 0 < A) {d : ℚ}
    (hd : 0 < d) {p : Position ℚ} (hp : p.quantity ≠ 0) :
    (closePosition binaryOptionsMarketRefundFlagPrice 0 (haircut market data
        binaryOptionsMarketRefundFlagPrice 0 d p)).payout =
      if d ≤ A then (1 - d / A) * p.margin else 0 := by
  have hprofits : data.totalProfits = A := by rw [← hdata, ← hA, assets]
  have hcut := fun taken => profitHaircut_refund hmarket hdata hA taken p
  simp only [haircut, if_pos hd, hprofits, if_pos hpos]
  by_cases hle : d ≤ A
  · simp only [if_pos hle]
    rw [closePosition_refund, (hcut d).2, if_neg hp, (hcut d).1]
    ring
  · -- all of every margin is taken, and the payout stage has nothing left to cut
    have hno : ¬d - A ≤ 0 - A := fun h => absurd hd (not_lt.mpr ((sub_le_sub_iff_right _).mp h))
    simp only [if_neg hle, payoutHaircut, hprofits, hpayouts, if_neg hno]
    rw [closePosition_refund, modifyPaying]
    split
    · rfl
    · rw [(hcut _).1, mul_div_cancel_left₀ _ hpos.ne', sub_self, ite_self]

end Haircut

/-- **REFUND**: with more liabilities than assets `A` and insurance, the haircut takes
    the share `d / A` of every margin where its purpose asks for the share of the
    liabilities; `d` is what insurance leaves of the deficit. The refunds together always
    stay below the funds available. -/
theorem refund_leaves_funds_behind (hmarket : market.marketType = .binaryOption)
    (hq : ∀ p ∈ positions, 0 < p.position.quantity)
    (hfund : 0 ≤ funds.getInsuranceFundBalance)
    (hlt : assets market funds positions + insured market bank funds positions <
      liabilities positions) :
    let d := max (liabilities positions - assets market funds positions)
      (liabilities positions - fromChainFormat funds.marketBalance market.quoteDecimals) -
        insured market bank funds positions
    refunded market bank funds positions =
        (if d ≤ assets market funds positions then
          (1 - d / assets market funds positions) * liabilities positions
        else 0) ∧
      refunded market bank funds positions <
        assets market funds positions + insured market bank funds positions := by
  generalize hA : assets market funds positions = A at hlt ⊢
  generalize hL : liabilities positions = L at hlt ⊢
  intro d
  have hI : 0 ≤ insured market bank funds positions := insured_nonneg hmarket hfund
  have hAL : A < L := by linarith
  have hpos : 0 < A := hA ▸ assets_pos hmarket hq (hA.trans_lt (hAL.trans_eq hL.symm))
  obtain ⟨hdef, hsurplus, hpayouts⟩ := lossData_refund hmarket rfl hA hL hAL
  have hge : L - A - insured market bank funds positions ≤ d := sub_le_sub_right (le_max_left _ _) _
  have hd0 : 0 < d := by linarith
  have hd : remainingDeficit market bank funds (lossData market funds none positions
      binaryOptionsMarketRefundFlagPrice 0) = d := by
    rw [remainingDeficit_exact, hdef]; rfl
  have hvalue : refunded market bank funds positions =
      if d ≤ A then (1 - d / A) * L else 0 := by
    obtain ⟨hpos', -, -⟩ := executeSocializedLoss_of_no_surplus rfl hsurplus
    rw [refunded, hpos', List.map_map, hd, fundedPositions, if_pos hmarket]
    refine (congrArg List.sum (List.map_congr_left fun p hp =>
      payout_haircut_refund hmarket rfl hA hpayouts hpos hd0 (hq p hp).ne')).trans ?_
    split
    · rw [List.sum_map_mul_left, ← hL]; rfl
    · simp
  refine ⟨hvalue, ?_⟩
  rw [hvalue]
  split
  · -- the share taken of the liabilities exceeds the deficit
    have hshare : d < d / A * L := by
      rw [div_mul_eq_mul_div, lt_div_iff₀ hpos]
      exact mul_lt_mul_of_pos_left hAL hd0
    rw [sub_mul, one_mul]
    linarith
  · linarith

end Refund

/-- A long and a short of two contracts with margins of two and one, against assets of
    two: not all of the assets are refunded. -/
theorem refund_leaves_funds_behind_sample :
    refunded (exactMarket .binaryOption) sampleBank ⟨2, none⟩
        [exactPosition 1 true 2 1 2, exactPosition 2 false 2 0 1] <
      assets (exactMarket .binaryOption) ⟨2, none⟩
          [exactPosition 1 true 2 1 2, exactPosition 2 false 2 0 1] +
        insured (exactMarket .binaryOption) sampleBank ⟨2, none⟩
          [exactPosition 1 true 2 1 2, exactPosition 2 false 2 0 1] :=
  (refund_leaves_funds_behind (exactMarket .binaryOption) sampleBank ⟨2, none⟩
    [exactPosition 1 true 2 1 2, exactPosition 2 false 2 0 1] rfl (by decide +kernel)
    (by decide +kernel) (by decide +kernel)).2

/-- With liabilities of three, assets of two and no insurance, one and a half is
    refunded. -/
theorem refund_pays_too_little :
    let positions := [exactPosition 1 true 2 1 2, exactPosition 2 false 2 0 1]
    liabilities positions = 3 ∧
      assets (exactMarket .binaryOption) ⟨2, none⟩ positions = 2 ∧
      insured (exactMarket .binaryOption) sampleBank ⟨2, none⟩ positions = 0 ∧
      refunded (exactMarket .binaryOption) sampleBank ⟨2, none⟩ positions = 3 / 2 := by
  decide +kernel

end ExchangeSettlement
