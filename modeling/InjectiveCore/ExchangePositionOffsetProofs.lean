import InjectiveCore.ExchangeClosingCheckProofs
import InjectiveCore.ExchangeLiquidationFundsProofs
import InjectiveCore.ExchangeOpenInterestProofs

/-!
# Offsetting a position — two sides closed against each other

An administrator can close a position that is to be liquidated against positions of the
other side, without the order book (`handleOffsettingPositions`). Both sides are closed at
one settlement price: the mark price, or the bankruptcy price of the liquidated position
once the mark price is beyond it.

The two sides are settled by different code. A loop closes the offsetting positions, one
subaccount after the other; it skips what cannot be used, and lets a position that loses
pay out of the margin of its rest. Then the liquidated position is closed by what the loop
has closed. `Offset` says what the loop keeps and `OffsetStep.offset` that one subaccount
keeps it; `offsetting_balances` puts both sides together.
-/

namespace ExchangePosition

open DecArith

variable {D : Type} [DecArith D]

/-- `ClosePositionWithoutPayouts`. -/
def closedPositionWithoutPayouts : Position D :=
  { isLong := false, quantity := 0, entryPrice := 0, margin := 0
    cumulativeFundingEntry := some 0 }

/-- `ApplyBankruptCloseWithoutPayouts`: the position it leaves, and the delta. Its profit
    or loss stays in the margin. -/
def Position.applyBankruptCloseWithoutPayouts (p : Position D)
    (closingPrice closingQuantity : D) : Position D × PositionDelta D × D :=
  if p.quantity = 0 ∨ closingQuantity = 0 then
    (p, { isLong := !p.isLong, executionQuantity := 0, executionMargin := 0
          executionPrice := closingPrice }, 0)
  else
    let closingQuantity := min p.quantity closingQuantity
    let positionDelta : PositionDelta D :=
      { isLong := !p.isLong, executionQuantity := closingQuantity, executionMargin := 0
        executionPrice := closingPrice }
    let pnl := p.getPayoutFromPnl closingPrice closingQuantity
    let remainingMargin := p.margin + pnl
    let remainingQuantity := p.quantity - closingQuantity
    if remainingQuantity = 0 then (closedPositionWithoutPayouts, positionDelta, pnl)
    else ({ p with quantity := remainingQuantity, margin := remainingMargin },
      positionDelta, pnl)

variable {p : Position D} {q : D}

theorem quantity_applyPositionDelta_close (hq : 0 < q) (hle : q ≤ p.quantity)
    (margin price fee : D) :
    (p.applyPositionDelta ⟨!p.isLong, q, margin, price⟩ fee).position.quantity =
      p.quantity - q := by
  have horiented : p.oriented ⟨!p.isLong, q, margin, price⟩ = p :=
    if_neg (hq.trans_le hle).ne'
  have hopposes : ¬p.isLong = !p.isLong := (Bool.not_ne_self p.isLong).symm
  simp only [Position.applyPositionDelta, horiented, if_neg hopposes, min_eq_right hle,
    lt_self_iff_false, if_false]

theorem quantity_applyBankruptClose (hq : 0 < q) (hle : q ≤ p.quantity) (price : D) :
    (p.applyBankruptCloseWithoutPayouts price q).1.quantity = p.quantity - q ∧
      (p.applyBankruptCloseWithoutPayouts price q).2.1.executionQuantity = q := by
  have hopen : ¬(p.quantity = 0 ∨ q = 0) := not_or.mpr ⟨(hq.trans_le hle).ne', hq.ne'⟩
  simp only [Position.applyBankruptCloseWithoutPayouts, if_neg hopen, min_eq_right hle]
  by_cases hall : p.quantity - q = 0
  · rw [if_pos hall]
    exact ⟨hall.symm, rfl⟩
  · rw [if_neg hall]
    exact ⟨rfl, rfl⟩

end ExchangePosition

namespace ExchangePositionOffset

open DecArith DeltaLedger ExchangePosition ExchangeFees ExchangeDeposits ExchangeMarketFunds
  ExchangeDerivativeFill ExchangeLiquidation

variable {D : Type} [DecArith D]

/-! ## The model -/

/-- What is fixed for an offsetting. `restingOrderRefunds` is what cancelling the resting
    limit orders of a subaccount in the market releases. -/
structure OffsetContext (D : Type) extends LiquidationContext D where
  market : DerivativeMarket D
  maintenanceMarginRatio : D
  markPrice : D
  funding : Option (PerpetualMarketFunding D)
  restingOrderRefunds : Hash → List D

/-- The funds, and the positions and the open interest of the market. -/
structure OffsetState (D : Type) extends LiquidationState D where
  positions : Hash → Option (Position D)
  openInterest : D

/-- Why a position is not offset. -/
inductive OffsetError where
  | positionNotOffsettable
  | noOffsettingPositionsFound
  | insurance (error : InsuranceError)
  deriving DecidableEq, Repr

/-- `DerivativeTradeLog`, without the fields that are empty here. -/
structure DerivativeTradeLog (D : Type) where
  subaccountID : Hash
  positionDelta : PositionDelta D
  payout : D
  pnl : D
  deriving DecidableEq, Repr

/-- `offsetProcessResult`. -/
structure OffsetProcessResult (D : Type) where
  buyTrades : List (DerivativeTradeLog D)
  sellTrades : List (DerivativeTradeLog D)
  depositDeltas : DepositDeltas D
  marketBalanceDelta : D
  remainingQuantity : D

/-- `SavePosition`. -/
def OffsetState.savePosition (s : OffsetState D) (id : Hash) (position : Position D) :
    OffsetState D :=
  { s with
    positions := Function.update s.positions id
      (if position.quantity = 0 then none else some position) }

/-- `CancelAllRestingDerivativeLimitOrdersForSubaccount`. -/
def OffsetState.cancelAllRestingDerivativeLimitOrders (c : OffsetContext D)
    (s : OffsetState D) (id : Hash) : OffsetState D :=
  { s with
    bank := s.bank.refundAll (c.bankSend id) id c.quoteDenom (c.restingOrderRefunds id) }

/-- `getOffsettingSettlementPrice`. -/
def getOffsettingSettlementPrice (position : Position D) (markPrice : D)
    (funding : Option (PerpetualMarketFunding D)) : D × Bool :=
  let bankruptcyPrice := position.getBankruptcyPrice funding
  if (position.isLong && decide (markPrice ≤ bankruptcyPrice)) ||
      (!position.isLong && decide (bankruptcyPrice ≤ markPrice)) then
    (bankruptcyPrice, true)
  else (markPrice, false)

/-- What a position is worth at a price. -/
def equityAtMark (position : Position D) (markPrice : D) : D :=
  position.margin + position.getPayoutFromPnl markPrice position.quantity

/-- The maintenance margin of a position. -/
def maintenanceMargin (position : Position D) (markPrice maintenanceMarginRatio : D) : D :=
  mul (mul markPrice position.quantity) maintenanceMarginRatio

/-- `settleNegativeOffsettingPayoutAgainstResidualEquity`: the payout that is accounted for
    and the position, or `none` when the rest of the position cannot absorb the loss. -/
def settleNegativeOffsettingPayoutAgainstResidualEquity (position : Position D)
    (payout markPrice maintenanceMarginRatio : D) : Option (D × Position D) :=
  if ¬payout < 0 then some (payout, position)
  else if ¬0 < position.quantity then none
  else
    let adjusted := { position with margin := position.margin + payout }
    if equityAtMark adjusted markPrice <
        maintenanceMargin adjusted markPrice maintenanceMarginRatio then none
    else some (0, adjusted)

/-- The delta that closes `qty` of an offsetting position. -/
def offsettingDelta (offsettingPosition : Position D) (qty settlementPrice : D) :
    PositionDelta D :=
  { isLong := !offsettingPosition.isLong, executionQuantity := qty, executionMargin := 0
    executionPrice := settlementPrice }

/-- What is saved for one offsetting subaccount. -/
def recordOffset (c : OffsetContext D) (s : OffsetState D) (acc : OffsetProcessResult D)
    (id : Hash) (delta : PositionDelta D) (update : PositionUpdate D) (accountingPayout : D)
    (settled : Position D) : OffsetState D × OffsetProcessResult D :=
  let chainPayout := toChainFormat accountingPayout c.market.quoteDecimals
  let log : DerivativeTradeLog D := ⟨id, delta, update.payout, update.pnl⟩
  ((OffsetState.cancelAllRestingDerivativeLimitOrders c s id).savePosition id settled,
    { buyTrades := if settled.isLong then acc.buyTrades else acc.buyTrades ++ [log]
      sellTrades := if settled.isLong then acc.sellTrades ++ [log] else acc.sellTrades
      depositDeltas := acc.depositDeltas.applyDelta id (.uniform chainPayout)
      marketBalanceDelta := acc.marketBalanceDelta + -chainPayout
      remainingQuantity := acc.remainingQuantity - delta.executionQuantity })

/-- The body of the loop of `processOffsettingSubaccounts`. -/
def offsetSubaccount (c : OffsetContext D) (isLong : Bool) (settlementPrice : D)
    (s : OffsetState D) (acc : OffsetProcessResult D) (id : Hash) :
    Except OffsetError (OffsetState D × OffsetProcessResult D) :=
  match s.positions id with
  | none => .ok (s, acc)
  | some pos =>
    if pos.quantity = 0 then .ok (s, acc)
    else if pos.isLong = isLong then .error .positionNotOffsettable
    else
      let offsettingPosition := pos.applyFunding c.funding
      let qty := min acc.remainingQuantity offsettingPosition.quantity
      if ¬0 < qty then .ok (s, acc)
      else
        let delta := offsettingDelta offsettingPosition qty settlementPrice
        let update := offsettingPosition.applyPositionDelta delta 0
        match settleNegativeOffsettingPayoutAgainstResidualEquity update.position
            update.payout c.markPrice c.maintenanceMarginRatio with
        | none => .ok (s, acc)
        | some (accountingPayout, settled) =>
          .ok (recordOffset c s acc id delta update accountingPayout settled)

/-- The loop: it ends when nothing remains to be closed. -/
def offsetSubaccounts (c : OffsetContext D) (isLong : Bool) (settlementPrice : D) :
    List Hash → OffsetState D → OffsetProcessResult D →
      Except OffsetError (OffsetState D × OffsetProcessResult D)
  | [], s, acc => .ok (s, acc)
  | id :: ids, s, acc =>
    if acc.remainingQuantity = 0 then .ok (s, acc)
    else
      match offsetSubaccount c isLong settlementPrice s acc id with
      | .error e => .error e
      | .ok (s', acc') => offsetSubaccounts c isLong settlementPrice ids s' acc'

/-- `processOffsettingSubaccounts`. -/
def processOffsettingSubaccounts (c : OffsetContext D) (settlementPrice : D)
    (s : OffsetState D) (position : Position D) (offsetIDs : List Hash) :
    Except OffsetError (OffsetState D × OffsetProcessResult D) :=
  match offsetSubaccounts c position.isLong settlementPrice offsetIDs s
      { buyTrades := [], sellTrades := [], depositDeltas := .empty, marketBalanceDelta := 0
        remainingQuantity := position.quantity } with
  | .error e => .error e
  | .ok (s', res) =>
    if res.remainingQuantity = position.quantity then .error .noOffsettingPositionsFound
    else .ok (s', res)

/-- `handlePositiveOffsettingLiquidationPayout`: the liquidator's share becomes a deposit
    delta, the whole coins of the rest go to the insurance fund. -/
def handlePositiveOffsettingLiquidationPayout (c : OffsetContext D) (s : OffsetState D)
    (surplusAmount : D) (depositDeltas : DepositDeltas D) :
    Except OffsetError (OffsetState D × DepositDeltas D) :=
  let insuranceAmount := insuranceFundPaymentAmount c.toLiquidationContext surplusAmount
  let liquidatorPayout := surplusAmount - newDec insuranceAmount
  let deltas :=
    if 0 < liquidatorPayout then
      depositDeltas.applyDelta (ethAddressToSubaccountID c.liquidatorAddr)
        (.uniform liquidatorPayout)
    else depositDeltas
  if ¬0 < insuranceAmount then .ok (s, deltas)
  else
    match moveCoinsIntoInsuranceFund s.toLiquidationState c.insuranceSend c.quoteDenom
        c.marketID insuranceAmount with
    | .error e => .error (.insurance e)
    | .ok funds => .ok ({ s with toLiquidationState := funds }, deltas)

/-- The liquidated position after its close: the position, its delta, its payout and its
    profit. -/
def closeLiquidatedPosition (position : Position D) (settlementPrice closingQuantity : D)
    (isBankrupt : Bool) : Position D × PositionDelta D × D × D :=
  if isBankrupt then
    let closed := position.applyBankruptCloseWithoutPayouts settlementPrice closingQuantity
    (closed.1, closed.2.1, 0, closed.2.2)
  else
    let delta := offsettingDelta position closingQuantity settlementPrice
    let update := position.applyPositionDelta delta 0
    (update.position, delta, update.payout, update.pnl)

/-- `ApplyOpenInterestDeltaForMarket`. -/
def OffsetState.applyOpenInterestDelta (s : OffsetState D) (openInterestDelta : D) :
    OffsetState D :=
  if openInterestDelta = 0 then s
  else { s with openInterest := max 0 (s.openInterest + openInterestDelta) }

/-- The state after an offsetting, the deltas applied to the deposits and the trades. -/
structure OffsetOutcome (D : Type) where
  state : OffsetState D
  depositDeltas : DepositDeltas D
  buyTrades : List (DerivativeTradeLog D)
  sellTrades : List (DerivativeTradeLog D)

/-- `handleLiquidatedPosition`. -/
def handleLiquidatedPosition (c : OffsetContext D) (s : OffsetState D)
    (settlementPrice : D) (position : Position D) (isBankrupt : Bool)
    (res : OffsetProcessResult D) : Except OffsetError (OffsetOutcome D) :=
  let closingQuantity := position.quantity - res.remainingQuantity
  let closed := closeLiquidatedPosition position settlementPrice closingQuantity isBankrupt
  let payout := closed.2.2.1
  if payout < 0 then .error .positionNotOffsettable
  else
    let chainPayout := toChainFormat payout c.market.quoteDecimals
    match if 0 < payout then
          handlePositiveOffsettingLiquidationPayout c s chainPayout res.depositDeltas
        else .ok (s, res.depositDeltas) with
    | .error e => .error e
    | .ok (paid, deltas) =>
      let mktBalDelta :=
        if 0 < payout then res.marketBalanceDelta + -chainPayout else res.marketBalanceDelta
      let trade : DerivativeTradeLog D :=
        ⟨c.positionSubaccountID, closed.2.1, payout, closed.2.2.2⟩
      let saved := paid.savePosition c.positionSubaccountID closed.1
      let credited : OffsetState D :=
        { saved with
          toLiquidationState :=
            saved.toLiquidationState.incrementMarketBalance c.marketID mktBalDelta }
      let counted := credited.applyOpenInterestDelta
        ((-2 : ℤ) • closed.2.1.executionQuantity)
      .ok
        { state := { counted with
            bank := counted.bank.applyDepositDeltas c.bankSend true c.quoteDenom deltas }
          depositDeltas := deltas
          buyTrades := if position.isLong then res.buyTrades else res.buyTrades ++ [trade]
          sellTrades :=
            if position.isLong then res.sellTrades ++ [trade] else res.sellTrades }

/-- `handleOffsettingPositions`. The position has been saved with its funding applied. -/
def handleOffsettingPositions (c : OffsetContext D) (s : OffsetState D)
    (position : Position D) (offsettingSubaccountIDs : List Hash) :
    Except OffsetError (OffsetOutcome D) :=
  let settlement := getOffsettingSettlementPrice position c.markPrice c.funding
  match processOffsettingSubaccounts c settlement.1 s position offsettingSubaccountIDs with
  | .error e => .error e
  | .ok (s', res) => handleLiquidatedPosition c s' settlement.1 position settlement.2 res

/-! ## One offsetting subaccount -/

/-- The quantity of the position of a subaccount. -/
def OffsetState.quantityAt (s : OffsetState D) (id : Hash) : D :=
  ((s.positions id).map (·.quantity)).getD 0

/-- A position covers its maintenance margin at the mark price. -/
def Healthy (c : OffsetContext D) (position : Position D) : Prop :=
  maintenanceMargin position c.markPrice c.maintenanceMarginRatio ≤
    equityAtMark position c.markPrice

theorem toChainFormat_nonneg {x : D} (h : 0 ≤ x) (decimals : ℕ) : 0 ≤ toChainFormat x decimals := by
  rw [toChainFormat_eq_zsmul]
  exact zsmul_nonneg h (by positivity)

variable {c : OffsetContext D} {position : Position D}

/-- What the settlement of a payout does: a loss is only taken from a position that stays
    open and healthy. -/
theorem settleNegative_cases {settled : Position D} {payout accountingPayout : D}
    (h : settleNegativeOffsettingPayoutAgainstResidualEquity position payout c.markPrice
      c.maintenanceMarginRatio = some (accountingPayout, settled)) :
    0 ≤ accountingPayout ∧ settled.quantity = position.quantity ∧
      (payout < 0 → 0 < settled.quantity ∧ Healthy c settled) := by
  rw [settleNegativeOffsettingPayoutAgainstResidualEquity] at h
  by_cases hloss : payout < 0
  · rw [if_neg (not_not.mpr hloss)] at h
    by_cases hopen : 0 < position.quantity
    · rw [if_neg (not_not.mpr hopen)] at h
      simp only at h
      split at h
      · cases h
      rename_i hhealthy
      cases h
      exact ⟨le_refl 0, rfl, fun _ => ⟨hopen, not_lt.mp hhealthy⟩⟩
    · rw [if_pos hopen] at h
      cases h
  · rw [if_pos hloss] at h
    cases h
    exact ⟨not_lt.mp hloss, rfl, fun hneg => absurd hneg hloss⟩

/-- One offsetting subaccount that is used: what was found, what was closed, and what is
    left of it. -/
structure OffsetStep (c : OffsetContext D) (isLong : Bool) (s s' : OffsetState D)
    (acc acc' : OffsetProcessResult D) (id : Hash) (pos settled : Position D)
    (qty accountingPayout : D) (log : DerivativeTradeLog D) : Prop where
  stored : s.positions id = some pos
  opposite : pos.isLong ≠ isLong
  qty_pos : 0 < qty
  qty_eq : qty = min acc.remainingQuantity pos.quantity
  settled_quantity : settled.quantity = pos.quantity - qty
  accountingPayout_nonneg : 0 ≤ accountingPayout
  absorbed : log.payout < 0 → 0 < settled.quantity ∧ Healthy c settled
  log_id : log.subaccountID = id
  state : s' = (OffsetState.cancelAllRestingDerivativeLimitOrders c s id).savePosition id settled
  trades : ∀ t ∈ acc'.buyTrades ++ acc'.sellTrades,
    t ∈ acc.buyTrades ++ acc.sellTrades ∨ t = log
  depositDeltas : acc'.depositDeltas = acc.depositDeltas.applyDelta id
    (.uniform (toChainFormat accountingPayout c.market.quoteDecimals))
  marketBalanceDelta : acc'.marketBalanceDelta = acc.marketBalanceDelta +
    -toChainFormat accountingPayout c.market.quoteDecimals
  remaining : acc'.remainingQuantity = acc.remainingQuantity - qty

omit [DecArith D] in
theorem mem_or_eq_of_mem_trades {isLong : Bool} {buys sells : List (DerivativeTradeLog D)}
    {t log : DerivativeTradeLog D}
    (h : t ∈ (if isLong then buys else buys ++ [log]) ++ if isLong then sells ++ [log] else sells) :
    t ∈ buys ++ sells ∨ t = log := by
  cases isLong with
  | true =>
    rw [if_pos rfl, if_pos rfl, ← List.append_assoc] at h
    exact (List.mem_append.mp h).imp_right List.mem_singleton.mp
  | false =>
    simp only [Bool.false_eq_true, if_false, List.mem_append, List.mem_singleton] at h ⊢
    tauto

variable {settlementPrice : D} {s s' : OffsetState D} {id : Hash}

theorem offsetSubaccount_cases {isLong : Bool} {acc acc' : OffsetProcessResult D}
    (h : offsetSubaccount c isLong settlementPrice s acc id = .ok (s', acc')) :
    (s' = s ∧ acc' = acc) ∨ ∃ pos settled qty accountingPayout log,
      OffsetStep c isLong s s' acc acc' id pos settled qty accountingPayout log := by
  rw [offsetSubaccount] at h
  split at h
  · cases h
    exact Or.inl ⟨rfl, rfl⟩
  · rename_i pos hpos
    split at h
    · cases h
      exact Or.inl ⟨rfl, rfl⟩
    · split at h
      · cases h
      rename_i hopposite
      simp only [applyFunding_quantity] at h
      set qty := min acc.remainingQuantity pos.quantity with hqty
      by_cases hclose : 0 < qty
      · rw [if_neg (not_not.mpr hclose)] at h
        set delta := offsettingDelta (pos.applyFunding c.funding) qty settlementPrice
        set update := (pos.applyFunding c.funding).applyPositionDelta delta 0
        split at h
        · cases h
          exact Or.inl ⟨rfl, rfl⟩
        · rename_i accountingPayout settled hsettle
          cases h
          obtain ⟨hpayout, hquantity, habsorbed⟩ := settleNegative_cases hsettle
          have hclosed := quantity_applyPositionDelta_close hclose
            (le_trans (min_le_right _ _) (applyFunding_quantity pos c.funding).ge) 0
            settlementPrice 0
          rw [applyFunding_quantity] at hclosed
          refine Or.inr ⟨pos, settled, qty, accountingPayout,
            ⟨id, delta, update.payout, update.pnl⟩, hpos, hopposite, hclose, hqty,
            hquantity.trans hclosed, hpayout, habsorbed, rfl, rfl, ?_, rfl, rfl, rfl⟩
          exact fun t ht => mem_or_eq_of_mem_trades ht
      · rw [if_pos hclose] at h
        cases h
        exact Or.inl ⟨rfl, rfl⟩

/-! ## The loop -/

theorem savePosition_self (s : OffsetState D) (id : Hash) (position : Position D) :
    (s.savePosition id position).positions id =
      if position.quantity = 0 then none else some position := Function.update_self ..

theorem savePosition_of_ne (s : OffsetState D) {id' : Hash} (h : id' ≠ id)
    (position : Position D) : (s.savePosition id position).positions id' = s.positions id' :=
  Function.update_of_ne h ..

theorem quantityAt_savePosition (s : OffsetState D) (id : Hash) (position : Position D) :
    (s.savePosition id position).quantityAt =
      Function.update s.quantityAt id position.quantity := by
  funext id'
  rw [OffsetState.quantityAt]
  by_cases hid : id' = id
  · subst hid
    rw [Function.update_self, savePosition_self]
    split
    · rename_i hzero
      exact hzero.symm
    · rfl
  · rw [Function.update_of_ne hid, savePosition_of_ne s hid]
    rfl

theorem savePosition_pos (h : ∀ id p, s.positions id = some p → 0 < p.quantity)
    (hposition : 0 ≤ position.quantity) (id' : Hash) (p : Position D)
    (hp : (s.savePosition id position).positions id' = some p) : 0 < p.quantity := by
  by_cases hid : id' = id
  · rw [hid, savePosition_self] at hp
    split at hp
    · cases hp
    rename_i hne
    cases hp
    exact lt_of_le_of_ne hposition (Ne.symm hne)
  · rw [savePosition_of_ne s hid] at hp
    exact h id' p hp

theorem quantityAt_nonneg (h : ∀ id p, s.positions id = some p → 0 < p.quantity) (id : Hash) :
    0 ≤ s.quantityAt id := by
  rw [OffsetState.quantityAt]
  cases hp : s.positions id with
  | none => exact le_refl 0
  | some p => exact (h id p hp).le

/-- The balances of a ledger are not negative. -/
def NonnegDeltas (deltas : DepositDeltas D) : Prop :=
  ∀ id, 0 ≤ (deltas.get id).availableBalanceDelta ∧ 0 ≤ (deltas.get id).totalBalanceDelta

variable {deltas : DepositDeltas D}

theorem NonnegDeltas.applyUniform (h : NonnegDeltas deltas) (id : Hash) {amount : D}
    (hamount : 0 ≤ amount) : NonnegDeltas (deltas.applyDelta id (.uniform amount)) := by
  intro id'
  rw [Ledger.get_applyDelta]
  split
  · exact ⟨add_nonneg (h id').1 hamount, add_nonneg (h id').2 hamount⟩
  · rw [add_zero]
    exact h id'

/-- What the loop keeps. `others` are the offsetting subaccounts but the liquidated one. -/
structure Offset (c : OffsetContext D) (position : Position D) (others : Finset Hash)
    (s₀ s : OffsetState D) (acc : OffsetProcessResult D) : Prop where
  quantity_pos : ∀ id p, s.positions id = some p → 0 < p.quantity
  liquidated : s.positions c.positionSubaccountID = some position
  frame : ∀ id, id ∉ others → s.positions id = s₀.positions id
  markets : s.markets = s₀.markets
  openInterest : s.openInterest = s₀.openInterest
  remaining_nonneg : 0 ≤ acc.remainingQuantity
  remaining_le : acc.remainingQuantity ≤ position.quantity
  closed : ∑ id ∈ others, (s₀.quantityAt id - s.quantityAt id) =
    position.quantity - acc.remainingQuantity
  balance : acc.depositDeltas.total + .uniform acc.marketBalanceDelta = 0
  deltas_nonneg : NonnegDeltas acc.depositDeltas
  absorbed : ∀ t ∈ acc.buyTrades ++ acc.sellTrades, t.payout < 0 → acc.remainingQuantity = 0 ∧
    t.subaccountID ∈ others ∧ ∃ p, s.positions t.subaccountID = some p ∧ Healthy c p

section Loop

variable {c : OffsetContext D} {position : Position D} {others : Finset Hash}
  {s₀ s s' : OffsetState D} {acc acc' : OffsetProcessResult D}

variable {pos settled : Position D} {qty accountingPayout : D} {log : DerivativeTradeLog D}

/-- A position that lost and stays open ends the loop: it was larger than what remained. -/
theorem OffsetStep.remaining_eq_zero {isLong : Bool}
    (h : OffsetStep c isLong s s' acc acc' id pos settled qty accountingPayout log)
    (hopen : 0 < settled.quantity) : acc'.remainingQuantity = 0 := by
  rw [h.settled_quantity, sub_pos] at hopen
  rw [h.remaining, sub_eq_zero]
  rw [h.qty_eq] at hopen ⊢
  exact (min_eq_left (le_of_lt (lt_of_not_ge (fun hle => absurd hopen
    (by rw [min_eq_right hle]; exact lt_irrefl _))))).symm

/-- **ONE SUBACCOUNT** keeps the accounts of the loop. -/
theorem OffsetStep.offset
    (h : OffsetStep c position.isLong s s' acc acc' id pos settled qty accountingPayout log)
    (hs : Offset c position others s₀ s acc) (hremaining : acc.remainingQuantity ≠ 0)
    (hid : id ≠ c.positionSubaccountID → id ∈ others) :
    Offset c position others s₀ s' acc' := by
  -- the liquidated position is on the other side
  have hne : id ≠ c.positionSubaccountID := by
    rintro rfl
    have hpos := h.stored.symm.trans hs.liquidated
    exact h.opposite (congrArg Position.isLong (Option.some.inj hpos))
  have hmem := hid hne
  have hqty : qty ≤ pos.quantity := h.qty_eq.trans_le (min_le_right _ _)
  have hsettled : 0 ≤ settled.quantity := by
    rw [h.settled_quantity]
    exact sub_nonneg.mpr hqty
  have hquantity : s.quantityAt id = pos.quantity := by
    rw [OffsetState.quantityAt, h.stored]
    rfl
  have hpayout := toChainFormat_nonneg h.accountingPayout_nonneg c.market.quoteDecimals
  have hafter : s'.quantityAt = Function.update s.quantityAt id settled.quantity := by
    rw [h.state, quantityAt_savePosition]
    rfl
  refine ⟨?_, ?_, ?_, ?_, ?_, ?_, ?_, ?_, ?_, ?_, ?_⟩
  · rw [h.state]
    exact savePosition_pos hs.quantity_pos hsettled
  · rw [h.state, savePosition_of_ne _ (Ne.symm hne)]
    exact hs.liquidated
  · intro id' hid'
    have hother : id' ≠ id := by
      rintro rfl
      exact hid' hmem
    rw [h.state, savePosition_of_ne _ hother]
    exact hs.frame id' hid'
  · rw [h.state]
    exact hs.markets
  · rw [h.state]
    exact hs.openInterest
  · rw [h.remaining, sub_nonneg, h.qty_eq]
    exact min_le_left _ _
  · rw [h.remaining]
    exact (sub_le_self _ h.qty_pos.le).trans hs.remaining_le
  · have hsum : ∑ i ∈ others, (s₀.quantityAt i - s'.quantityAt i) =
        ∑ i ∈ others, (s₀.quantityAt i - s.quantityAt i) +
          ∑ i ∈ others, (s.quantityAt i - s'.quantityAt i) := by
      rw [← Finset.sum_add_distrib]
      exact Finset.sum_congr rfl (fun i _ => (sub_add_sub_cancel _ _ _).symm)
    have hone : ∑ i ∈ others, (s.quantityAt i - s'.quantityAt i) = qty := by
      rw [Finset.sum_eq_single_of_mem id hmem, hafter, Function.update_self, hquantity,
        h.settled_quantity, sub_sub_cancel]
      intro i _ hi
      rw [hafter, Function.update_of_ne hi, sub_self]
    rw [hsum, hone, hs.closed, h.remaining]
    abel
  · rw [h.depositDeltas, h.marketBalanceDelta, Ledger.total_applyDelta]
    have hbalance := hs.balance
    rw [DepositDelta.ext_iff] at hbalance ⊢
    simp only [DepositDelta.add_available, DepositDelta.add_total, DepositDelta.uniform_available,
      DepositDelta.uniform_total, DepositDelta.zero_available, DepositDelta.zero_total]
      at hbalance ⊢
    constructor
    · rw [← hbalance.1]
      abel
    · rw [← hbalance.2]
      abel
  · rw [h.depositDeltas]
    exact hs.deltas_nonneg.applyUniform id hpayout
  · intro t ht hloss
    rcases h.trades t ht with hold | rfl
    · exact absurd (hs.absorbed t hold hloss).1 hremaining
    · obtain ⟨hopen, hhealthy⟩ := h.absorbed hloss
      refine ⟨h.remaining_eq_zero hopen, h.log_id ▸ hmem, settled, ?_, hhealthy⟩
      rw [h.log_id, h.state, savePosition_self, if_neg hopen.ne']

/-- **THE LOOP** keeps them. -/
theorem offsetSubaccounts_offset {ids : List Hash}
    (hids : ∀ id ∈ ids, id ≠ c.positionSubaccountID → id ∈ others)
    (hs : Offset c position others s₀ s acc)
    (h : offsetSubaccounts c position.isLong settlementPrice ids s acc = .ok (s', acc')) :
    Offset c position others s₀ s' acc' := by
  induction ids generalizing s acc with
  | nil =>
    cases h
    exact hs
  | cons id ids ih =>
    rw [offsetSubaccounts] at h
    split at h
    · cases h
      exact hs
    · rename_i hremaining
      split at h
      · cases h
      rename_i s₁ acc₁ hstep
      refine ih (fun id' hid' => hids id' (List.mem_cons_of_mem id hid')) ?_ h
      rcases offsetSubaccount_cases hstep with ⟨rfl, rfl⟩ | ⟨_, _, _, _, _, hoffset⟩
      · exact hs
      · exact hoffset.offset hs hremaining (hids id List.mem_cons_self)

end Loop

/-! ## The liquidated position -/

theorem closeLiquidatedPosition_quantity {q : D} (hq : 0 < q) (hle : q ≤ position.quantity)
    (settlementPrice : D) (isBankrupt : Bool) :
    (closeLiquidatedPosition position settlementPrice q isBankrupt).1.quantity =
        position.quantity - q ∧
      (closeLiquidatedPosition position settlementPrice q isBankrupt).2.1.executionQuantity =
        q := by
  cases isBankrupt with
  | true => exact quantity_applyBankruptClose hq hle settlementPrice
  | false => exact ⟨quantity_applyPositionDelta_close hq hle 0 settlementPrice 0, rfl⟩

variable {surplusAmount : D}

theorem insuranceFundPaymentAmount_le {c : LiquidationContext D}
    (hrate : 0 ≤ c.liquidatorRewardShareRate) (hrate' : c.liquidatorRewardShareRate ≤ one)
    (hsurplus : 0 ≤ surplusAmount) :
    0 ≤ insuranceFundPaymentAmount c surplusAmount ∧
      newDec (insuranceFundPaymentAmount c surplusAmount) ≤ surplusAmount := by
  have hshare : 0 ≤ mul surplusAmount (one - c.liquidatorRewardShareRate) :=
    DecArith.mul_nonneg hsurplus (sub_nonneg.mpr hrate')
  refine ⟨truncateInt_nonneg hshare, (newDec_truncateInt_le hshare).trans ?_⟩
  have hle := DecArith.mul_le_mul_right (one - c.liquidatorRewardShareRate) one surplusAmount
    (sub_le_self one hrate) hsurplus
  rwa [DecArith.mul_comm, DecArith.mul_comm one, DecArith.mul_one] at hle

/-- What a market's fund has gained. -/
def fundGain (c : OffsetContext D) (s s' : OffsetState D) : ℤ :=
  (s'.markets c.marketID).getInsuranceFundBalance -
    (s.markets c.marketID).getInsuranceFundBalance

/-- What the payout of the liquidated position does: a surplus is divided between the
    liquidator and the insurance fund, and nothing else moves. -/
structure Paid (c : OffsetContext D) (s s' : OffsetState D) (surplusAmount : D)
    (deltas deltas' : DepositDeltas D) : Prop where
  positions : s'.positions = s.positions
  openInterest : s'.openInterest = s.openInterest
  marketBalance : (s'.markets c.marketID).marketBalance = (s.markets c.marketID).marketBalance
  divided : deltas'.total + .uniform (newDec (fundGain c s s')) =
    deltas.total + .uniform surplusAmount
  nonneg : NonnegDeltas deltas → NonnegDeltas deltas'

theorem uniform_add (x y : D) :
    (DepositDelta.uniform x : DepositDelta D) + .uniform y = .uniform (x + y) := rfl

theorem uniform_zero : (DepositDelta.uniform 0 : DepositDelta D) = 0 := rfl

omit [DecArith D] in
theorem moveCoins_fund {s s' : LiquidationState D} {bankSend : Bool} {denom : String}
    {marketID : Hash} {amount : ℤ}
    (h : moveCoinsIntoInsuranceFund s bankSend denom marketID amount = .ok s') :
    (s'.markets marketID).marketBalance = (s.markets marketID).marketBalance ∧
      (s'.markets marketID).getInsuranceFundBalance =
        (s.markets marketID).getInsuranceFundBalance + amount := by
  rw [moveCoinsIntoInsuranceFund, MarketFunds.moveCoinsIntoInsuranceFund] at h
  cases hfund : (s.markets marketID).insuranceFund with
  | none =>
    rw [hfund] at h
    cases h
  | some balance =>
    simp only [hfund] at h
    cases bankSend with
    | false => cases h
    | true =>
      cases h
      simp only [Function.update_self, MarketFunds.getInsuranceFundBalance, hfund,
        Option.getD_some, and_self]

theorem handlePositive_paid {deltas' : DepositDeltas D}
    (hrate : 0 ≤ c.liquidatorRewardShareRate) (hrate' : c.liquidatorRewardShareRate ≤ one)
    (hsurplus : 0 ≤ surplusAmount)
    (h : handlePositiveOffsettingLiquidationPayout c s surplusAmount deltas =
      .ok (s', deltas')) : Paid c s s' surplusAmount deltas deltas' := by
  obtain ⟨hcoins, hle⟩ := insuranceFundPaymentAmount_le hrate hrate' hsurplus
  rw [handlePositiveOffsettingLiquidationPayout] at h
  set coins := insuranceFundPaymentAmount c.toLiquidationContext surplusAmount
  set paid := if 0 < surplusAmount - newDec coins then
      deltas.applyDelta (ethAddressToSubaccountID c.liquidatorAddr)
        (.uniform (surplusAmount - newDec coins))
    else deltas with hpaid
  have hliquidator : 0 ≤ surplusAmount - newDec coins := sub_nonneg.mpr hle
  -- a payout of nothing is not recorded, and would not change the sum
  have htotal : paid.total = deltas.total + .uniform (surplusAmount - newDec coins) := by
    rw [hpaid]
    split
    · exact Ledger.total_applyDelta ..
    · rename_i hnone
      rw [le_antisymm (not_lt.mp hnone) hliquidator, uniform_zero, add_zero]
  have hdivided : paid.total + .uniform (newDec coins) = deltas.total + .uniform surplusAmount := by
    rw [htotal, add_assoc, uniform_add, sub_add_cancel]
  have hnonneg (hd : NonnegDeltas deltas) : NonnegDeltas paid := by
    rw [hpaid]
    split
    · exact hd.applyUniform _ hliquidator
    · exact hd
  split at h
  · rename_i hnone
    obtain ⟨rfl, rfl⟩ := Prod.mk.inj (Except.ok.inj h)
    have hzero : coins = 0 := le_antisymm (not_lt.mp hnone) hcoins
    refine ⟨rfl, rfl, rfl, ?_, hnonneg⟩
    rw [fundGain, sub_self, ← hzero]
    exact hdivided
  · split at h
    · cases h
    rename_i funds hmove
    obtain ⟨rfl, rfl⟩ := Prod.mk.inj (Except.ok.inj h)
    obtain ⟨hbalance, hfund⟩ := moveCoins_fund hmove
    refine ⟨rfl, rfl, hbalance, ?_, hnonneg⟩
    have hgain : fundGain c s { s with toLiquidationState := funds } = coins := by
      rw [fundGain]
      exact sub_eq_of_eq_add' hfund
    rw [hgain]
    exact hdivided

variable {res : OffsetProcessResult D}

/-- The closed position, its payout and what the market balance keeps. -/
theorem handleLiquidatedPosition_cases {isBankrupt : Bool} {x : OffsetOutcome D}
    (hrate : 0 ≤ c.liquidatorRewardShareRate) (hrate' : c.liquidatorRewardShareRate ≤ one)
    (h : handleLiquidatedPosition c s settlementPrice position isBankrupt res = .ok x) :
    ∃ paid surplusAmount closed,
      closed = closeLiquidatedPosition position settlementPrice
        (position.quantity - res.remainingQuantity) isBankrupt ∧
      Paid c s paid surplusAmount res.depositDeltas x.depositDeltas ∧
      x.state.positions = (paid.savePosition c.positionSubaccountID closed.1).positions ∧
      x.state.openInterest =
        (paid.applyOpenInterestDelta ((-2 : ℤ) • closed.2.1.executionQuantity)).openInterest ∧
      (x.state.markets c.marketID).marketBalance =
        (s.markets c.marketID).marketBalance + (res.marketBalanceDelta - surplusAmount) ∧
      (x.state.markets c.marketID).getInsuranceFundBalance =
        (paid.markets c.marketID).getInsuranceFundBalance ∧
      ∀ t ∈ x.buyTrades ++ x.sellTrades, t.payout < 0 → t ∈ res.buyTrades ++ res.sellTrades := by
  rw [handleLiquidatedPosition] at h
  simp only at h
  set closed := closeLiquidatedPosition position settlementPrice
    (position.quantity - res.remainingQuantity) isBankrupt
  split at h
  · cases h
  rename_i hpayout
  split at h
  · cases h
  rename_i paid deltas hpaid
  cases h
  set chainPayout := toChainFormat closed.2.2.1 c.market.quoteDecimals with hchain
  have hstate (s₁ : OffsetState D) (delta : D) :
      (s₁.applyOpenInterestDelta delta).positions = s₁.positions ∧
        (s₁.applyOpenInterestDelta delta).markets = s₁.markets := by
    rw [OffsetState.applyOpenInterestDelta]
    split
    · exact ⟨rfl, rfl⟩
    · exact ⟨rfl, rfl⟩
  have hspec : Paid c s paid chainPayout res.depositDeltas deltas ∧
      (if 0 < closed.2.2.1 then res.marketBalanceDelta + -chainPayout
        else res.marketBalanceDelta) = res.marketBalanceDelta - chainPayout := by
    split at hpaid
    · rename_i hpos
      rw [if_pos hpos]
      exact ⟨handlePositive_paid hrate hrate' (toChainFormat_nonneg hpos.le _) hpaid,
        (sub_eq_add_neg _ _).symm⟩
    · rename_i hnone
      cases hpaid
      have hzero : chainPayout = 0 := by
        rw [hchain, le_antisymm (not_lt.mp hnone) (not_lt.mp hpayout), toChainFormat_zero]
      rw [if_neg hnone, hzero, sub_zero]
      refine ⟨⟨rfl, rfl, rfl, ?_, fun hd => hd⟩, rfl⟩
      rw [fundGain, sub_self, newDec_zero]
  refine ⟨paid, chainPayout, closed, rfl, hspec.1, (hstate _ _).1, ?_, ?_, ?_, ?_⟩
  · show (OffsetState.applyOpenInterestDelta _ _).openInterest = _
    simp only [OffsetState.applyOpenInterestDelta]
    split
    · rfl
    · rfl
  · show ((OffsetState.applyOpenInterestDelta _ _).markets c.marketID).marketBalance = _
    rw [(hstate _ _).2]
    simp only [LiquidationState.incrementMarketBalance, LiquidationState.setMarket_self,
      MarketFunds.incrementMarketBalance, OffsetState.savePosition]
    rw [hspec.2, hspec.1.marketBalance]
  · show ((OffsetState.applyOpenInterestDelta _ _).markets c.marketID).getInsuranceFundBalance = _
    rw [(hstate _ _).2]
    simp only [LiquidationState.incrementMarketBalance, LiquidationState.setMarket_self,
      MarketFunds.incrementMarketBalance, OffsetState.savePosition,
      MarketFunds.getInsuranceFundBalance]
  · intro t ht hloss
    rcases mem_or_eq_of_mem_trades ht with hmem | rfl
    · exact hmem
    · exact absurd hloss hpayout

/-! ## Both sides -/

/-- The open interest counts every position. -/
def CountsPositions (s : OffsetState D) : Prop :=
  ∀ ids : Finset Hash, ∑ id ∈ ids, s.quantityAt id ≤ s.openInterest

open GrossExposure ExchangeMatchState ExchangeDerivativeLedger ExchangeOpenInterest in
/-- **BATCHES KEEP THE COUNT**: open interest that was the gross position before a batch
    counts every position after it. -/
theorem countsPositions_of_batch {R : Type} {E : MatchEnv R D}
    {batch : DerivativeBatchExecutionData D} (h : TracksPositions E batch)
    (hpositions : s.positions = finalPosition E batch)
    (hopen : s.openInterest = applyOpenInterestDeltaForMarket
      (gross E.storedQuantity) batch.openInterestDelta) : CountsPositions s := by
  intro ids
  have hquantity : ∀ id, s.quantityAt id ≤ |readQuantity batch.positions E.storedQuantity id| := by
    intro id
    rw [← signedQuantity_finalPosition, abs_signedQuantity, OffsetState.quantityAt, hpositions]
    cases finalPosition E batch id with
    | none | some p => exact le_abs_self _
  rw [hopen, openInterest_eq_gross h, gross]
  exact (Finset.sum_le_sum fun id _ => hquantity id).trans
    (Finset.sum_le_univ_sum_of_nonneg fun _ => abs_nonneg _)

/-- The quantity closed of some positions between two states. -/
def closedQuantity (s s' : OffsetState D) (ids : Finset Hash) : D :=
  ∑ id ∈ ids, (s.quantityAt id - s'.quantityAt id)

/-- The accounts of an offsetting, from the loop's and the liquidated position's. -/
theorem processOffsetting_offset {ids : List Hash}
    (hsaved : s.positions c.positionSubaccountID = some position)
    (hopen : ∀ id p, s.positions id = some p → 0 < p.quantity)
    (h : processOffsettingSubaccounts c settlementPrice s position ids = .ok (s', res)) :
    Offset c position (ids.toFinset.erase c.positionSubaccountID) s s' res ∧
      res.remainingQuantity ≠ position.quantity := by
  rw [processOffsettingSubaccounts] at h
  split at h
  · cases h
  rename_i s₁ res₁ hloop
  split at h
  · cases h
  rename_i hsome
  obtain ⟨rfl, rfl⟩ := Prod.mk.inj (Except.ok.inj h)
  refine ⟨offsetSubaccounts_offset ?_ ?_ hloop, hsome⟩
  · intro id hid hne
    exact Finset.mem_erase.mpr ⟨hne, List.mem_toFinset.mpr hid⟩
  · refine ⟨hopen, hsaved, fun _ _ => rfl, rfl, rfl, (hopen _ _ hsaved).le, le_refl _, ?_,
      ?_, ?_, ?_⟩
    · rw [sub_self]
      exact Finset.sum_eq_zero (fun id _ => sub_self _)
    · rw [Ledger.total_empty, uniform_zero, add_zero]
    · intro id
      exact ⟨le_refl 0, le_refl 0⟩
    · intro t ht
      cases ht

/-- **OFFSETTING CONSERVES VALUE AND SIDES**: what the deposits get, the market balance and
    the insurance fund change by the opposite; both sides are closed by the same quantity,
    and the open interest falls by both; a position that paid for its loss out of its
    margin is left healthy, and no deposit is charged. -/
theorem offsetting_balances (c : OffsetContext D) (s : OffsetState D) (position : Position D)
    (ids : List Hash) (x : OffsetOutcome D) (hrate : 0 ≤ c.liquidatorRewardShareRate)
    (hrate' : c.liquidatorRewardShareRate ≤ one)
    (hsaved : s.positions c.positionSubaccountID = some position)
    (hopen : ∀ id p, s.positions id = some p → 0 < p.quantity) (hcounts : CountsPositions s)
    (h : handleOffsettingPositions c s position ids = .ok x) :
    x.depositDeltas.total + .uniform ((x.state.markets c.marketID).marketBalance -
        (s.markets c.marketID).marketBalance + newDec (fundGain c s x.state)) = 0 ∧
    (0 < closedQuantity s x.state {c.positionSubaccountID} ∧
      closedQuantity s x.state {c.positionSubaccountID} =
        closedQuantity s x.state (ids.toFinset.erase c.positionSubaccountID) ∧
      x.state.openInterest =
        s.openInterest - (2 : ℤ) • closedQuantity s x.state {c.positionSubaccountID} ∧
      ∀ id, id ∉ ids → id ≠ c.positionSubaccountID →
        x.state.positions id = s.positions id) ∧
    ((∀ t ∈ x.buyTrades ++ x.sellTrades, t.payout < 0 →
        ∃ p, x.state.positions t.subaccountID = some p ∧
          maintenanceMargin p c.markPrice c.maintenanceMarginRatio ≤
            equityAtMark p c.markPrice) ∧
      NonnegDeltas x.depositDeltas) := by
  rw [handleOffsettingPositions] at h
  split at h
  · cases h
  rename_i s' res hprocess
  obtain ⟨hloop, hsome⟩ := processOffsetting_offset hsaved hopen hprocess
  obtain ⟨paid, surplus, closed, hclosed, hpaid, hpositions, hinterest, hbalance, hfund,
    htrades⟩ := handleLiquidatedPosition_cases hrate hrate' h
  set others := ids.toFinset.erase c.positionSubaccountID with hothers
  set q := position.quantity - res.remainingQuantity with hq
  have hle : q ≤ position.quantity := sub_le_self _ hloop.remaining_nonneg
  have hpos : 0 < q := sub_pos.mpr (lt_of_le_of_ne hloop.remaining_le hsome)
  obtain ⟨hrest, hexecuted⟩ := closeLiquidatedPosition_quantity hpos hle
    (getOffsettingSettlementPrice position c.markPrice c.funding).1
    (getOffsettingSettlementPrice position c.markPrice c.funding).2
  rw [← hclosed] at hrest hexecuted
  have hstart : s.quantityAt c.positionSubaccountID = position.quantity := by
    rw [OffsetState.quantityAt, hsaved]
    rfl
  have hothersAt : ∀ id, id ≠ c.positionSubaccountID →
      x.state.positions id = s'.positions id := by
    intro id hid
    rw [hpositions, savePosition_of_ne paid hid, hpaid.positions]
  have hend : x.state.quantityAt c.positionSubaccountID = position.quantity - q := by
    rw [OffsetState.quantityAt, hpositions, ← hrest]
    exact (congrFun (quantityAt_savePosition paid _ closed.1) _).trans (Function.update_self ..)
  have hliquidated : closedQuantity s x.state {c.positionSubaccountID} = q := by
    rw [closedQuantity, Finset.sum_singleton, hstart, hend, sub_sub_cancel]
  have hoffset : closedQuantity s x.state others = q := by
    rw [closedQuantity, hq, ← hloop.closed]
    refine Finset.sum_congr rfl (fun id hid => ?_)
    rw [OffsetState.quantityAt, OffsetState.quantityAt, OffsetState.quantityAt,
      hothersAt id (Finset.ne_of_mem_erase hid)]
  -- both sides are counted, so the open interest is not floored
  have hcovered : (2 : ℤ) • q ≤ s.openInterest := by
    have hself : c.positionSubaccountID ∉ others := Finset.notMem_erase _ _
    have hall := hcounts (insert c.positionSubaccountID others)
    rw [Finset.sum_insert hself, hstart] at hall
    have hsides : q ≤ ∑ id ∈ others, s.quantityAt id := by
      rw [hq, ← hloop.closed]
      exact Finset.sum_le_sum (fun id _ => sub_le_self _ (quantityAt_nonneg hloop.quantity_pos id))
    rw [two_zsmul]
    exact (add_le_add hle hsides).trans hall
  refine ⟨?_, ⟨?_, ?_, ?_, ?_⟩, ?_, ?_⟩
  · have hgain : fundGain c s x.state = fundGain c s' paid := by
      rw [fundGain, fundGain, hfund, hloop.markets]
    rw [hgain, hbalance, hloop.markets, add_sub_cancel_left, ← uniform_add,
      add_comm (DepositDelta.uniform (res.marketBalanceDelta - surplus)), ← add_assoc,
      hpaid.divided, add_assoc, uniform_add, add_sub_cancel]
    exact hloop.balance
  · rwa [hliquidated]
  · rw [hliquidated, hoffset]
  · have hdelta : (-2 : ℤ) • q ≠ 0 := by
      rw [neg_zsmul, neg_ne_zero, two_zsmul]
      exact (add_pos hpos hpos).ne'
    rw [hinterest, hexecuted, OffsetState.applyOpenInterestDelta, if_neg hdelta, hliquidated]
    show max 0 (paid.openInterest + (-2 : ℤ) • q) = _
    rw [hpaid.openInterest, hloop.openInterest, neg_zsmul, ← sub_eq_add_neg]
    exact max_eq_right (sub_nonneg.mpr hcovered)
  · intro id hid hne
    rw [hothersAt id hne]
    exact hloop.frame id (fun hmem => hid (List.mem_toFinset.mp (Finset.mem_of_mem_erase hmem)))
  · intro t ht hloss
    obtain ⟨-, hmem, p, hp, hhealthy⟩ := hloop.absorbed t (htrades t ht hloss) hloss
    exact ⟨p, (hothersAt _ (Finset.ne_of_mem_erase hmem)).trans hp, hhealthy⟩
  · exact hpaid.nonneg hloop.deltas_nonneg

/-! ## A bankrupt position -/

/-- A market at 90 with a maintenance margin ratio of a fiftieth. -/
def sampleContext : OffsetContext LegacyDec where
  marketID := 7
  quoteDenom := "usdt"
  positionSubaccountID := 1
  liquidatorAddr := 0
  liquidatorRewardShareRate := ⟨5 * 10 ^ 17⟩
  bankSend := fun _ => true
  insuranceSend := true
  market :=
    { marketType := .perpetual, makerFeeRate := 0, takerFeeRate := 0, relayerFeeShareRate := 0
      oracleScaleFactor := 0, quoteDecimals := 6, initialMarginRatio := ⟨5 * 10 ^ 16⟩
      openNotionalCap := .uncapped }
  maintenanceMarginRatio := ⟨2 * 10 ^ 16⟩
  markPrice := newDec 90
  funding := none
  restingOrderRefunds := fun _ => []

/-- A long position of 2 that is bankrupt at 95. -/
def bankruptLong : Position LegacyDec := ⟨true, newDec 2, newDec 100, newDec 10, none⟩

/-- A short position of 3 whose margin does not cover a close of 2 at 95. -/
def thinShort : Position LegacyDec := ⟨false, newDec 3, newDec 90, newDec 12, none⟩

/-- The two positions and nothing else. -/
def sampleOffset : OffsetState LegacyDec where
  bank := sampleState.bank
  markets := sampleState.markets
  positions := fun id =>
    if id = 1 then some bankruptLong else if id = 2 then some thinShort else none
  openInterest := newDec 5

theorem sampleOffset_open (id : Hash) (p : Position LegacyDec)
    (h : sampleOffset.positions id = some p) : 0 < p.quantity := by
  change (if id = 1 then some bankruptLong else if id = 2 then some thinShort else none) = some p
    at h
  split at h
  · cases h
    decide
  · split at h
    · cases h
      decide
    · cases h

theorem sampleOffset_counts : CountsPositions sampleOffset := by
  intro ids
  have hnonneg := quantityAt_nonneg sampleOffset_open
  have hrest : ∀ id, id ∉ ({1, 2} : Finset Hash) → sampleOffset.quantityAt id = 0 := by
    intro id hid
    rw [Finset.mem_insert, Finset.mem_singleton, not_or] at hid
    have hnone : sampleOffset.positions id = none := by
      show (if id = 1 then some bankruptLong else if id = 2 then some thinShort else none) = none
      rw [if_neg hid.1, if_neg hid.2]
    rw [OffsetState.quantityAt, hnone]
    rfl
  calc ∑ id ∈ ids, sampleOffset.quantityAt id
      ≤ ∑ id ∈ ids ∪ {1, 2}, sampleOffset.quantityAt id :=
        Finset.sum_le_sum_of_subset_of_nonneg Finset.subset_union_left (fun id _ _ => hnonneg id)
    _ = ∑ id ∈ {1, 2}, sampleOffset.quantityAt id :=
        (Finset.sum_subset Finset.subset_union_right (fun id _ hid => hrest id hid)).symm
    _ = sampleOffset.openInterest := by decide
    _ ≤ sampleOffset.openInterest := le_refl _

/-- The short is listed twice, beside a subaccount without a position. It closes 2 of its
    3, pays a loss of 2 out of the margin of the rest, and is left healthy. -/
theorem offsetting_balances_bankrupt :
    ∃ x, handleOffsettingPositions sampleContext sampleOffset bankruptLong [3, 2, 2] = .ok x ∧
      closedQuantity sampleOffset x.state {1} =
        closedQuantity sampleOffset x.state (([3, 2, 2] : List Hash).toFinset.erase 1) ∧
      x.state.openInterest =
        newDec 5 - (2 : ℤ) • closedQuantity sampleOffset x.state {1} ∧
      ∀ t ∈ x.buyTrades ++ x.sellTrades, t.payout < 0 →
        ∃ p, x.state.positions t.subaccountID = some p ∧
          maintenanceMargin p (newDec 90) ⟨2 * 10 ^ 16⟩ ≤ equityAtMark p (newDec 90) := by
  have hok : (handleOffsettingPositions sampleContext sampleOffset bankruptLong
      [3, 2, 2]).isOk = true := by decide +kernel
  cases hx : handleOffsettingPositions sampleContext sampleOffset bankruptLong [3, 2, 2] with
  | error e =>
    rw [hx] at hok
    cases hok
  | ok x =>
    obtain ⟨-, ⟨-, hsides, hinterest, -⟩, habsorbed, -⟩ := offsetting_balances sampleContext
      sampleOffset bankruptLong [3, 2, 2] x (by decide) (by decide) rfl sampleOffset_open
      sampleOffset_counts hx
    exact ⟨x, rfl, hsides, hinterest, habsorbed⟩

end ExchangePositionOffset
