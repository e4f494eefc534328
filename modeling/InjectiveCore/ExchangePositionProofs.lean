import InjectiveCore.DecArithProofs

/-!
# Positions — netting, closing and flipping as signed addition

A derivative position is a direction, a quantity, an entry price and a margin
(`types/v2/position.go`). `applyPositionDelta` nets a fill into it: a fill in the
same direction averages the entry price, a fill in the opposing direction pays out
the closed part, and a fill larger than the position **flips** it.

The case split disappears when a position is read as one signed number
(`getSignedPositionQuantity`, long positive, short negative). Then every delta is
plain addition, `signed_applyPositionDelta`. Nothing else is needed to follow open
interest and side balance through a batch, in whatever order its fills are applied.
-/

namespace ExchangePosition

open DecArith

variable {D : Type} [DecArith D]

/-- A position of one subaccount in one market. `cumulativeFundingEntry` is `none`
    for the nil decimal of markets without funding. -/
structure Position (D : Type) where
  isLong : Bool
  quantity : D
  entryPrice : D
  margin : D
  cumulativeFundingEntry : Option D
  deriving DecidableEq, Repr

/-- The change a fill makes to a position. -/
structure PositionDelta (D : Type) where
  isLong : Bool
  executionQuantity : D
  executionMargin : D
  executionPrice : D
  deriving DecidableEq, Repr

/-- The funding index of a perpetual market. -/
structure PerpetualMarketFunding (D : Type) where
  cumulativeFunding : D
  deriving DecidableEq, Repr

/-- `NewPosition`: an empty position entered at the given funding index. -/
def newPosition (isLong : Bool) (cumulativeFundingEntry : Option D) : Position D :=
  { isLong := isLong, quantity := 0, entryPrice := 0, margin := 0,
    cumulativeFundingEntry := cumulativeFundingEntry }

/-! ## Funding -/

/-- `getFundingAdjustedMarginWithAddedMargin`: longs pay the funding accrued since
    the entry index, shorts receive it. -/
def Position.getFundingAdjustedMarginWithAddedMargin (p : Position D)
    (funding : Option (PerpetualMarketFunding D)) (addedMargin : D) : D :=
  match funding with
  | none => p.margin + addedMargin
  | some f =>
    -- the entry index is set whenever the market has funding
    let payment := mul p.quantity
      (f.cumulativeFunding - p.cumulativeFundingEntry.getD 0)
    if p.isLong then p.margin + addedMargin - payment
    else p.margin + addedMargin + payment

/-- `ApplyFunding`: realise the funding payment and move the entry index. -/
def Position.applyFunding (p : Position D)
    (funding : Option (PerpetualMarketFunding D)) : Position D :=
  match funding with
  | none => p
  | some f =>
    { p with
      margin := p.getFundingAdjustedMarginWithAddedMargin (some f) 0
      cumulativeFundingEntry := some f.cumulativeFunding }

@[simp] theorem applyFunding_isLong (p : Position D)
    (f : Option (PerpetualMarketFunding D)) : (p.applyFunding f).isLong = p.isLong := by
  cases f <;> rfl

@[simp] theorem applyFunding_quantity (p : Position D)
    (f : Option (PerpetualMarketFunding D)) :
    (p.applyFunding f).quantity = p.quantity := by
  cases f <;> rfl

/-! ## Payouts -/

/-- `GetPayoutFromPnl`: the profit or loss of closing a quantity at a price. -/
def Position.getPayoutFromPnl (p : Position D) (closingPrice closingQuantity : D) : D :=
  if p.isLong then mul closingQuantity (closingPrice - p.entryPrice)
  else -mul closingQuantity (closingPrice - p.entryPrice)

/-- What closing a whole position would pay (`PositionPayout`). -/
structure PositionPayout (D : Type) where
  payout : D
  pnlNotional : D
  isProfitable : Bool
  deriving DecidableEq, Repr

/-- `GetPayoutIfFullyClosing`. -/
def Position.getPayoutIfFullyClosing (p : Position D)
    (closingPrice closingFeeRate : D) : PositionPayout D :=
  let closeTradingFee := mul (mul closingPrice p.quantity) closingFeeRate
  let pnlNotional := p.getPayoutFromPnl closingPrice p.quantity - closeTradingFee
  { payout := pnlNotional + p.margin
    pnlNotional := pnlNotional
    isProfitable := (p.isLong && decide (p.entryPrice < closingPrice)) ||
      (!p.isLong && decide (closingPrice < p.entryPrice)) }

/-- `GetAverageWeightedEntryPrice`. -/
def Position.getAverageWeightedEntryPrice (p : Position D)
    (executionQuantity executionPrice : D) : D :=
  quo (mul p.quantity p.entryPrice + mul executionQuantity executionPrice)
    (p.quantity + executionQuantity)

/-- `splitPositionMargin`: the margin of the closed part and of the rest. -/
def splitPositionMargin (totalMargin totalQuantity closingQuantity : D) : D × D :=
  if totalQuantity = 0 ∨ closingQuantity = 0 then (0, totalMargin)
  else if closingQuantity = totalQuantity then (totalMargin, 0)
  else
    let remainingMargin :=
      quo (mul totalMargin (totalQuantity - closingQuantity)) totalQuantity
    (totalMargin - remainingMargin, remainingMargin)

theorem splitPositionMargin_add (m q c : D) :
    (splitPositionMargin m q c).1 + (splitPositionMargin m q c).2 = m := by
  unfold splitPositionMargin
  split
  · exact zero_add m
  · split
    · exact add_zero m
    · exact sub_add_cancel m _

/-! ## Netting a delta -/

/-- What `ApplyPositionDelta` leaves behind: the position and its four results. -/
structure PositionUpdate (D : Type) where
  position : Position D
  payout : D
  closeExecutionMargin : D
  collateralizationMargin : D
  pnl : D
  deriving DecidableEq, Repr

/-- An empty position takes the direction of the delta. -/
def Position.oriented (p : Position D) (delta : PositionDelta D) : Position D :=
  if p.quantity = 0 then { p with isLong := delta.isLong } else p

/-- Netting in the same direction. -/
def Position.netSameDirection (p : Position D) (delta : PositionDelta D) : Position D :=
  { p with
    entryPrice :=
      p.getAverageWeightedEntryPrice delta.executionQuantity delta.executionPrice
    quantity := p.quantity + delta.executionQuantity
    margin := p.margin + delta.executionMargin }

/-- `ApplyPositionDelta`. The recursive call of a flip always finds an empty
    position and so nets in the same direction. -/
def Position.applyPositionDelta (p₀ : Position D) (delta : PositionDelta D)
    (tradingFeeForReduceOnly : D) : PositionUpdate D :=
  let p := p₀.oriented delta
  if p.isLong = delta.isLong then
    { position := p.netSameDirection delta, payout := 0, closeExecutionMargin := 0,
      collateralizationMargin := delta.executionMargin, pnl := 0 }
  else
    -- netting in opposing direction
    let closingQuantity := min p.quantity delta.executionQuantity
    let closeExecutionMargin :=
      quo (mul delta.executionMargin closingQuantity) delta.executionQuantity
    -- fees of reduce-only trades are deducted from the profit
    let pnlNotional := p.getPayoutFromPnl delta.executionPrice closingQuantity -
      (if delta.executionMargin = 0 then tradingFeeForReduceOnly else 0)
    let margins := splitPositionMargin p.margin p.quantity closingQuantity
    let closed : Position D :=
      { p with margin := margins.2, quantity := p.quantity - closingQuantity }
    let rest : PositionDelta D :=
      { isLong := !closed.isLong
        executionQuantity := delta.executionQuantity - closingQuantity
        executionMargin := delta.executionMargin - closeExecutionMargin
        executionPrice := delta.executionPrice }
    let isFlippingPosition := closingQuantity < delta.executionQuantity
    { position :=
        if isFlippingPosition then (closed.oriented rest).netSameDirection rest
        else closed
      payout := pnlNotional + margins.1
      closeExecutionMargin := closeExecutionMargin
      collateralizationMargin := if isFlippingPosition then rest.executionMargin else 0
      pnl := pnlNotional }

/-- A missing delta changes nothing and pays nothing. -/
def Position.applyPositionDelta? (p : Position D) (delta : Option (PositionDelta D))
    (tradingFeeForReduceOnly : D) : PositionUpdate D :=
  match delta with
  | none => { position := p, payout := 0, closeExecutionMargin := 0,
              collateralizationMargin := 0, pnl := 0 }
  | some d => p.applyPositionDelta d tradingFeeForReduceOnly

theorem oriented_quantity (p : Position D) (delta : PositionDelta D) :
    (p.oriented delta).quantity = p.quantity := by
  unfold Position.oriented; split <;> rfl

/-! ## The signed reading -/

/-- `getSignedPositionQuantity`: long positive, short negative. -/
def Position.getSignedPositionQuantity (p : Position D) : D :=
  if p.isLong then p.quantity else -p.quantity

/-- The signed quantity a delta stands for. -/
def PositionDelta.signed (delta : PositionDelta D) : D :=
  if delta.isLong then delta.executionQuantity else -delta.executionQuantity

@[simp] theorem signed_applyFunding (p : Position D)
    (f : Option (PerpetualMarketFunding D)) :
    (p.applyFunding f).getSignedPositionQuantity = p.getSignedPositionQuantity := by
  unfold Position.getSignedPositionQuantity
  rw [applyFunding_isLong, applyFunding_quantity]

theorem signed_oriented (p : Position D) (delta : PositionDelta D) :
    (p.oriented delta).getSignedPositionQuantity = p.getSignedPositionQuantity := by
  unfold Position.oriented
  split
  · next h => simp [Position.getSignedPositionQuantity, h]
  · rfl

theorem signed_netSameDirection (p : Position D) (delta : PositionDelta D)
    (h : p.isLong = delta.isLong) :
    (p.netSameDirection delta).getSignedPositionQuantity =
      p.getSignedPositionQuantity + delta.signed := by
  unfold Position.netSameDirection Position.getSignedPositionQuantity PositionDelta.signed
  rw [h]
  cases delta.isLong
  · exact neg_add _ _
  · rfl

/-- **NETTING IS SIGNED ADDITION**: opening, closing and flipping alike add the
    signed fill, and the quantity stays non-negative. -/
theorem signed_applyPositionDelta (p : Position D) (delta : PositionDelta D) (fee : D)
    (hp : 0 ≤ p.quantity) (hd : 0 ≤ delta.executionQuantity) :
    (p.applyPositionDelta delta fee).position.getSignedPositionQuantity =
        p.getSignedPositionQuantity + delta.signed ∧
      0 ≤ (p.applyPositionDelta delta fee).position.quantity := by
  rw [← signed_oriented p delta]
  have hp' : 0 ≤ (p.oriented delta).quantity := by rwa [oriented_quantity]
  unfold Position.applyPositionDelta
  simp only
  generalize p.oriented delta = o at hp'
  by_cases hdir : o.isLong = delta.isLong
  · rw [if_pos hdir]
    exact ⟨signed_netSameDirection o delta hdir, add_nonneg hp' hd⟩
  · rw [if_neg hdir]
    have hopp : delta.isLong = !o.isLong := by
      cases ho : o.isLong <;> cases hl : delta.isLong <;> simp_all
    by_cases hflip : min o.quantity delta.executionQuantity < delta.executionQuantity
    · -- flipping: the closed part is the whole position, the rest opens the other side
      have hmin : min o.quantity delta.executionQuantity = o.quantity := min_eq_left (by grind)
      simp only [if_pos hflip]
      refine ⟨?_, ?_⟩
      · rw [signed_netSameDirection _ _ (by simp [Position.oriented, hmin]),
          signed_oriented]
        simp only [Position.getSignedPositionQuantity, PositionDelta.signed, hmin, hopp]
        cases o.isLong <;> simp <;> abel
      · simp only [Position.netSameDirection, oriented_quantity, hmin]
        grind
    · have hmin : min o.quantity delta.executionQuantity = delta.executionQuantity :=
        min_eq_right (by grind)
      simp only [if_neg hflip]
      refine ⟨?_, ?_⟩
      · simp only [Position.getSignedPositionQuantity, PositionDelta.signed, hmin, hopp]
        cases o.isLong <;> simp <;> abel
      · show 0 ≤ o.quantity - min o.quantity delta.executionQuantity
        grind

end ExchangePosition
