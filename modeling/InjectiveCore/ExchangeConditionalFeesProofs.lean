import InjectiveCore.ExchangeDepositsProofs
import InjectiveCore.ExchangeDerivativeHoldProofs
import InjectiveCore.ExchangeMatchStateProofs

/-!
# Conditional orders under changing taker fees

A vanilla conditional order locks its margin and the taker fee on its notional when it is
placed. When the taker fee rate of the market falls, `handleTakerFeeRateChange` pays the
difference back for every conditional order; when it rises, the difference is charged, and
an order that cannot pay is cancelled. Cancelling a limit order computes its refund from
the rate of the market at that time. Cancelling a market order pays the `MarginHold` that
was stored when it was placed, which no fee change touches.

The state below keeps a record of what was charged and released for each order, measured
on the spendable funds of its subaccount (`release_eq`, `charge_ok`). Reading decimals as
exact rationals, `Inv` says of every order that what is outstanding is the
hold at the current rate. A fee change moves one order at a time to the new rate
(`foldl_reprice`), in whatever order the store is read.

- `conditional_hold_released_iff`: a limit order gets back exactly what it paid, over
  every run. A market order does so exactly if the rate at which it was placed and the
  one at which it is cancelled have the same positive part.
- `market_order_refunded_twice`: a market order that gets back more than it paid.
-/

namespace ExchangeConditionalFees

open DecArith ExchangeFees ExchangeDerivativeFill ExchangeDerivativeLedger
  ExchangeDerivativeHold ExchangeMatchState ExchangeDeposits

variable {D : Type} [DecArith D]

/-! ## State -/

/-- What stays the same in a market: its parameters but for the taker fee rate, which is
    kept in the state, and the margin mode of the subaccounts. -/
structure ConditionalEnv (D : Type) where
  market : DerivativeMarket D
  quoteDenom : String
  isCrossMargin : Hash → Bool
  atomicExecutionFeeMultiplier : D

/-- What other modules decide about an order: whether the checks that do not concern its
    hold accept it, and the answers of the bank and the permissions module. -/
structure Outcomes where
  accepted : Bool
  charge : State.ChargeOutcomes
  bankSend : Bool
  deriving DecidableEq, Repr

/-- What has been charged and released on behalf of an order, in chain format, as it was
    measured on the spendable funds of its subaccount before and after each call, and the
    taker fee rates at which it was placed and cancelled. -/
structure HoldRecord (D : Type) where
  order : IDerivativeOrder D
  placedAt : D
  placementHold : D
  extraCharged : D
  released : D
  cancelledAt : Option D
  deriving DecidableEq, Repr

/-- The conditional orders of a market, in the order in which the store is read, its
    taker fee rate, and the deposits. `record` is not part of the store. -/
structure ConditionalState (D : Type) where
  takerFeeRate : D
  orders : List (IDerivativeOrder D)
  funds : State D
  record : Hash → Option (HoldRecord D)

/-- No conditional order has been placed. -/
def ConditionalState.initial (takerFeeRate : D) (funds : State D) : ConditionalState D :=
  { takerFeeRate := takerFeeRate, orders := [], funds := funds, record := fun _ => none }

/-- The errors of the functions below. -/
inductive ConditionalOrderError (D : Type) where
  | rejected
  | insufficientMargin (reason : MarginError D)
  | chargeFailed (reason : DepositError)
  | orderDoesntExist
  deriving DecidableEq, Repr

namespace ConditionalState

/-- What a subaccount can spend: its available balance, and for a default subaccount the
    coins of its owner. -/
def spendable (E : ConditionalEnv D) (funds : State D) (subaccountID : Hash) : D :=
  funds.getSpendableFunds subaccountID E.quoteDenom

/-- Change the record of an order. -/
def updateRecord (s : ConditionalState D) (orderHash : Hash)
    (f : HoldRecord D → HoldRecord D) : ConditionalState D :=
  { s with record := Function.update s.record orderHash ((s.record orderHash).map f) }

/-! ## Placing an order -/

/-- `NewDerivativeMarketOrder`, with the hold that is set on vanilla orders. -/
def newDerivativeMarketOrder (o : DerivativeOrder D) (orderHash : Hash) (marginHold : D) :
    DerivativeMarketOrder D :=
  { orderInfo := o.orderInfo, orderType := o.orderType, margin := o.margin
    marginHold := if o.margin = 0 then 0 else marginHold, orderHash := orderHash }

/-- The fee rate an order is held at (`EnsureValidDerivativeOrder`). -/
def tradeFeeRate (E : ConditionalEnv D) (s : ConditionalState D) (isMarketOrder : Bool)
    (o : DerivativeOrder D) : D :=
  if !isMarketOrder && o.orderType.isPostOnly then E.market.makerFeeRate
  else if o.orderType.isAtomic then mul s.takerFeeRate E.atomicExecutionFeeMultiplier
  else s.takerFeeRate

/-- `ReserveDerivativeOrderMargin` for a conditional order: the hold, and the deposits
    after it was charged. A cross-margin subaccount is checked and not charged. -/
def reserveDerivativeOrderMargin (E : ConditionalEnv D) (charge : State.ChargeOutcomes)
    (funds : State D) (o : DerivativeOrder D) (triggerPrice feeRate : D) :
    Except (ConditionalOrderError D) (D × State D) :=
  if o.margin = 0 then .ok (0, funds)
  else
    match checkMarginAndGetMarginHold o E.market.initialMarginRatio triggerPrice feeRate
        E.market.marketType E.market.oracleScaleFactor with
    | .error e => .error (.insufficientMargin e)
    | .ok marginHold =>
      if E.isCrossMargin o.orderInfo.subaccountID then .ok (0, funds)
      else
        match funds.chargeAccount charge o.orderInfo.subaccountID E.quoteDenom
            (toChainFormat marginHold E.market.quoteDecimals) with
        | .error e => .error (.chargeFailed e)
        | .ok funds' => .ok (marginHold, funds')

/-- `CreateDerivativeLimitOrder` and `CreateDerivativeMarketOrder` for a conditional
    order, which the store keeps at `position`. -/
def createConditionalOrder (E : ConditionalEnv D) (outcomes : Outcomes)
    (s : ConditionalState D) (isMarketOrder : Bool) (o : DerivativeOrder D)
    (orderHash : Hash) (triggerPrice : D) (position : ℕ) :
    Except (ConditionalOrderError D) (ConditionalState D) :=
  if !outcomes.accepted then .error .rejected
  else
    match reserveDerivativeOrderMargin E outcomes.charge s.funds o triggerPrice
        (s.tradeFeeRate E isMarketOrder o) with
    | .error e => .error e
    | .ok (marginHold, funds) =>
      let order : IDerivativeOrder D :=
        if isMarketOrder then .market (newDerivativeMarketOrder o orderHash marginHold)
        else .limit (newDerivativeLimitOrder o orderHash)
      .ok { s with
            orders := s.orders.take position ++ order :: s.orders.drop position
            funds := funds
            record := Function.update s.record orderHash (some
              { order := order, placedAt := s.takerFeeRate
                placementHold := spendable E s.funds o.orderInfo.subaccountID -
                  spendable E funds o.orderInfo.subaccountID
                extraCharged := 0, released := 0, cancelledAt := none }) }

/-! ## Cancelling an order -/

/-- `GetCancelRefundAmount` of either kind of order. -/
def getCancelRefundAmount (takerFeeRate : D) : IDerivativeOrder D → D
  | .limit o => ExchangeDerivativeLedger.getCancelRefundAmount o takerFeeRate
  | .market o => getMarketOrderCancelRefundAmount o

/-- `IncrementAvailableBalanceOrBank` on behalf of an order. -/
def release (E : ConditionalEnv D) (bankSend : Bool) (s : ConditionalState D)
    (order : IDerivativeOrder D) (amount : D) : ConditionalState D :=
  let funds := s.funds.incrementAvailableBalanceOrBank bankSend order.subaccountID
    E.quoteDenom amount
  { s.updateRecord order.orderHash (fun r =>
      { r with
        released := r.released + (spendable E funds order.subaccountID -
          spendable E s.funds order.subaccountID) }) with
    funds := funds }

/-- `RefundDerivativeMarketOrderCancel`: a cross-margin subaccount has nothing locked. -/
def refundDerivativeMarketOrderCancel (E : ConditionalEnv D) (bankSend : Bool)
    (s : ConditionalState D) (order : IDerivativeOrder D) (refundAmount : D) :
    ConditionalState D :=
  if E.isCrossMargin order.subaccountID then s
  else s.release E bankSend order (toChainFormat refundAmount E.market.quoteDecimals)

/-- `DeleteConditionalDerivativeOrder`. -/
def deleteConditionalDerivativeOrder (s : ConditionalState D) (order : IDerivativeOrder D) :
    ConditionalState D :=
  { s.updateRecord order.orderHash
      (fun r => { r with cancelledAt := some s.takerFeeRate }) with
    orders := s.orders.erase order }

/-- Cancelling a conditional order of one kind. -/
def cancelConditionalOrder (E : ConditionalEnv D) (isLimit bankSend : Bool)
    (s : ConditionalState D) (subaccountID orderHash : Hash) :
    Except (ConditionalOrderError D) (ConditionalState D) :=
  match s.orders.find? (fun o => o.isLimit == isLimit && o.subaccountID == subaccountID &&
      o.orderHash == orderHash) with
  | none => .error .orderDoesntExist
  | some order =>
    let refundAmount := getCancelRefundAmount s.takerFeeRate order
    let refunded :=
      if 0 < refundAmount then
        s.refundDerivativeMarketOrderCancel E bankSend order refundAmount
      else s
    .ok (refunded.deleteConditionalDerivativeOrder order)

/-- `CancelConditionalDerivativeLimitOrder`. -/
def cancelConditionalDerivativeLimitOrder (E : ConditionalEnv D) (bankSend : Bool)
    (s : ConditionalState D) (subaccountID orderHash : Hash) :
    Except (ConditionalOrderError D) (ConditionalState D) :=
  s.cancelConditionalOrder E true bankSend subaccountID orderHash

/-- `CancelConditionalDerivativeMarketOrder`. -/
def cancelConditionalDerivativeMarketOrder (E : ConditionalEnv D) (bankSend : Bool)
    (s : ConditionalState D) (subaccountID orderHash : Hash) :
    Except (ConditionalOrderError D) (ConditionalState D) :=
  s.cancelConditionalOrder E false bankSend subaccountID orderHash

/-! ## Changing the taker fee rate -/

/-- `GetAllConditionalDerivativeOrdersUpToMarkPrice` without a price, as the handlers go
    through it: market buys, market sells, limit buys, limit sells. -/
def getAllConditionalDerivativeOrders (s : ConditionalState D) : List (IDerivativeOrder D) :=
  let marketOrders := s.orders.filter (fun o => !o.isLimit)
  let limitOrders := s.orders.filter (fun o => o.isLimit)
  (marketOrders.filter (fun o => o.orderType.isBuy) ++
      marketOrders.filter (fun o => !o.orderType.isBuy)) ++
    (limitOrders.filter (fun o => o.orderType.isBuy) ++
      limitOrders.filter (fun o => !o.orderType.isBuy))

/-- The fee on what is left of an order, at a difference of rates, in chain format. -/
def feeDifference (E : ConditionalEnv D) (rate : D) (order : IDerivativeOrder D) : D :=
  toChainFormat (mul (mul rate order.getFillable) order.orderInfo.price)
    E.market.quoteDecimals

/-- `decreaseRate`. -/
def decreaseRate (E : ConditionalEnv D) (outcomes : Hash → Outcomes) (feeRefundRate : D)
    (s : ConditionalState D) (order : IDerivativeOrder D) : ConditionalState D :=
  if order.margin = 0 then s
  else if E.isCrossMargin order.subaccountID then s
  else s.release E (outcomes order.orderHash).bankSend order
    (feeDifference E feeRefundRate order)

/-- `handleDerivativeFeeDecreaseForConditionals`; the negative part of the new rate is
    ignored. -/
def handleDerivativeFeeDecreaseForConditionals (E : ConditionalEnv D)
    (outcomes : Hash → Outcomes) (orderbook : List (IDerivativeOrder D))
    (prevFeeRate newFeeRate : D) (s : ConditionalState D) : ConditionalState D :=
  if ¬0 < prevFeeRate then s
  else orderbook.foldl
    (decreaseRate E outcomes (min prevFeeRate (prevFeeRate - newFeeRate))) s

/-- `ChargeAccount` on behalf of an order. -/
def charge (E : ConditionalEnv D) (env : State.ChargeOutcomes) (s : ConditionalState D)
    (order : IDerivativeOrder D) (amount : D) : Except DepositError (ConditionalState D) :=
  match s.funds.chargeAccount env order.subaccountID E.quoteDenom amount with
  | .error e => .error e
  | .ok funds =>
    .ok { s.updateRecord order.orderHash (fun r =>
            { r with
              extraCharged := r.extraCharged + (spendable E s.funds order.subaccountID -
                spendable E funds order.subaccountID) }) with
          funds := funds }

/-- `tryChargeExtraFeeForDerivativeOrder`: the state after the charge, or `none` if it
    did not take place. -/
def tryChargeExtraFeeForDerivativeOrder (E : ConditionalEnv D) (env : State.ChargeOutcomes)
    (feeChargeRate : D) (s : ConditionalState D) (order : IDerivativeOrder D) :
    Option (ConditionalState D) :=
  if order.margin = 0 then some s
  else if E.isCrossMargin order.subaccountID then some s
  else
    let extraFee := feeDifference E feeChargeRate order
    if s.funds.hasSufficientFunds order.subaccountID E.quoteDenom extraFee then
      (s.charge E env order extraFee).toOption
    else none

/-- One order of `handleDerivativeFeeIncreaseForConditionals`: charged, or cancelled at
    the previous rate. -/
def increaseRate (E : ConditionalEnv D) (outcomes : Hash → Outcomes) (feeChargeRate : D)
    (s : ConditionalState D) (order : IDerivativeOrder D) : ConditionalState D :=
  let out := outcomes order.orderHash
  match s.tryChargeExtraFeeForDerivativeOrder E out.charge feeChargeRate order with
  | some s' => s'
  | none =>
    match s.cancelConditionalOrder E order.isLimit out.bankSend order.subaccountID
        order.orderHash with
    | .ok s' => s'
    | .error _ => s

/-- `handleDerivativeFeeIncreaseForConditionals`; the negative part of the previous rate
    is ignored. -/
def handleDerivativeFeeIncreaseForConditionals (E : ConditionalEnv D)
    (outcomes : Hash → Outcomes) (orderbook : List (IDerivativeOrder D))
    (prevFeeRate newFeeRate : D) (s : ConditionalState D) : ConditionalState D :=
  if ¬0 < newFeeRate then s
  else orderbook.foldl
    (increaseRate E outcomes (min newFeeRate (newFeeRate - prevFeeRate))) s

/-- `handleTakerFeeRateChange`. -/
def handleTakerFeeRateChange (E : ConditionalEnv D) (outcomes : Hash → Outcomes)
    (newRate : D) (s : ConditionalState D) : ConditionalState D :=
  let orders := s.getAllConditionalDerivativeOrders
  if newRate < s.takerFeeRate then
    handleDerivativeFeeDecreaseForConditionals E outcomes orders s.takerFeeRate newRate s
  else if s.takerFeeRate < newRate then
    handleDerivativeFeeIncreaseForConditionals E outcomes orders s.takerFeeRate newRate s
  else s

/-- The part of a market parameter update that concerns the taker fee rate: the orders are
    handled with the previous market, then the new rate is written. -/
def updateTakerFeeRate (E : ConditionalEnv D) (outcomes : Hash → Outcomes) (newRate : D)
    (s : ConditionalState D) : ConditionalState D :=
  { s.handleTakerFeeRateChange E outcomes newRate with takerFeeRate := newRate }

end ConditionalState

/-! ## Runs -/

/-- What can happen to the conditional orders of a market. -/
inductive Action (D : Type) where
  | create (isMarketOrder : Bool) (order : DerivativeOrder D) (orderHash : Hash)
      (triggerPrice : D) (position : ℕ)
  | changeTakerFeeRate (newRate : D)
  | cancelLimit (subaccountID orderHash : Hash)
  | cancelMarket (subaccountID orderHash : Hash)
  | otherFunds (funds : State D)

/-- An action, and what other modules decide about each order during it. -/
structure Event (D : Type) where
  action : Action D
  outcomes : Hash → Outcomes

open ConditionalState

/-- The state after an event; what returns an error is rolled back. -/
def Event.exec (E : ConditionalEnv D) (s : ConditionalState D) (e : Event D) :
    ConditionalState D :=
  match e.action with
  | .create isMarketOrder order orderHash triggerPrice position =>
    (s.createConditionalOrder E (e.outcomes orderHash) isMarketOrder order orderHash
      triggerPrice position).toOption.getD s
  | .changeTakerFeeRate newRate => s.updateTakerFeeRate E e.outcomes newRate
  | .cancelLimit subaccountID orderHash =>
    (s.cancelConditionalDerivativeLimitOrder E (e.outcomes orderHash).bankSend subaccountID
      orderHash).toOption.getD s
  | .cancelMarket subaccountID orderHash =>
    (s.cancelConditionalDerivativeMarketOrder E (e.outcomes orderHash).bankSend
      subaccountID orderHash).toOption.getD s
  | .otherFunds funds => { s with funds := funds }

/-- What messages are checked for before they are executed (`ValidateBasic`), and that an
    order hash, computed from a nonce that only grows, is not used twice. -/
def Event.Allowed (s : ConditionalState D) (e : Event D) : Prop :=
  match e.action with
  | .create _ order orderHash _ _ =>
    order.orderType.isConditional = true ∧ 0 < order.orderInfo.quantity ∧
      0 < order.orderInfo.price ∧ 0 ≤ order.margin ∧ s.record orderHash = none
  | _ => True

instance (s : ConditionalState D) (e : Event D) : Decidable (e.Allowed s) :=
  match e with
  | ⟨.create .., _⟩ => inferInstanceAs (Decidable (_ ∧ _))
  | ⟨.changeTakerFeeRate _, _⟩ => inferInstanceAs (Decidable True)
  | ⟨.cancelLimit _ _, _⟩ => inferInstanceAs (Decidable True)
  | ⟨.cancelMarket _ _, _⟩ => inferInstanceAs (Decidable True)
  | ⟨.otherFunds _, _⟩ => inferInstanceAs (Decidable True)

/-- The state after a list of events. -/
def run (E : ConditionalEnv D) (events : List (Event D)) (s : ConditionalState D) :
    ConditionalState D :=
  events.foldl (Event.exec E) s

/-- Every event of a list is allowed when it comes. -/
def Valid (E : ConditionalEnv D) : ConditionalState D → List (Event D) → Prop
  | _, [] => True
  | s, e :: rest => e.Allowed s ∧ Valid E (e.exec E s) rest

instance decidableValid (E : ConditionalEnv D) :
    ∀ (s : ConditionalState D) (events : List (Event D)), Decidable (Valid E s events)
  | _, [] => .isTrue trivial
  | s, e :: rest =>
    have := decidableValid E (e.exec E s) rest
    inferInstanceAs (Decidable (_ ∧ _))

/-- The conditional order types are neither post-only nor atomic, so they are held at the
    taker fee rate. -/
theorem tradeFeeRate_of_isConditional (E : ConditionalEnv D) (s : ConditionalState D)
    (isMarketOrder : Bool) {o : DerivativeOrder D} (h : o.orderType.isConditional = true) :
    s.tradeFeeRate E isMarketOrder o = s.takerFeeRate := by
  have htype : o.orderType.isPostOnly = false ∧ o.orderType.isAtomic = false := by
    cases ht : o.orderType with
    | buyPO | sellPO | buyAtomic | sellAtomic => rw [ht] at h; exact nomatch h
    | _ => exact ⟨rfl, rfl⟩
  rw [tradeFeeRate, htype.1, htype.2, Bool.and_false, if_neg Bool.false_ne_true,
    if_neg Bool.false_ne_true]

omit [DecArith D] in
theorem getAllConditionalDerivativeOrders_perm (s : ConditionalState D) :
    s.getAllConditionalDerivativeOrders.Perm s.orders := by
  have hsplit : ∀ (l : List (IDerivativeOrder D)) (p : IDerivativeOrder D → Bool),
      (l.filter p ++ l.filter (fun o => !p o)).Perm l :=
    fun l p => List.filter_append_perm p l
  refine ((hsplit _ _).append (hsplit _ _)).trans ?_
  exact List.perm_append_comm.trans (hsplit s.orders _)

/-! ## What the records measure -/

/-- **A RELEASE** reaches the spendable funds in full, whatever the bank does. -/
theorem release_eq (E : ConditionalEnv D) (bankSend : Bool) (s : ConditionalState D)
    (order : IDerivativeOrder D) (amount : D) :
    s.release E bankSend order amount =
      { s.updateRecord order.orderHash (fun r => { r with released := r.released + amount }) with
        funds := s.funds.incrementAvailableBalanceOrBank bankSend order.subaccountID E.quoteDenom
          amount } := by
  simp only [release, spendable, State.getSpendableFunds_incrementAvailableBalanceOrBank,
    add_sub_cancel_left]

/-- **A CHARGE** is taken from the spendable funds in full. -/
theorem charge_ok {E : ConditionalEnv D} {env : State.ChargeOutcomes} {s s' : ConditionalState D}
    {order : IDerivativeOrder D} {amount : D} (h : s.charge E env order amount = .ok s') :
    ∃ funds, s' = { s.updateRecord order.orderHash
      (fun r => { r with extraCharged := r.extraCharged + amount }) with funds := funds } := by
  rw [charge] at h
  split at h
  · cases h
  rename_i funds hcharge
  refine ⟨funds, (Except.ok.inj h).symm.trans ?_⟩
  simp only [spendable, State.getSpendableFunds_chargeAccount hcharge, sub_sub_cancel]

/-! ## Holds in exact arithmetic -/

section Exact

variable {E : ConditionalEnv ℚ}

/-- Something is locked for the vanilla orders of isolated-margin subaccounts. -/
def HasHold (E : ConditionalEnv ℚ) (o : IDerivativeOrder ℚ) : Prop :=
  o.margin ≠ 0 ∧ E.isCrossMargin o.subaccountID = false

instance (E : ConditionalEnv ℚ) (o : IDerivativeOrder ℚ) : Decidable (HasHold E o) :=
  inferInstanceAs (Decidable (_ ∧ _))

/-- The hold of an order at a taker fee rate, in chain format. -/
def holdAt (E : ConditionalEnv ℚ) (o : IDerivativeOrder ℚ) (rate : ℚ) : ℚ :=
  if HasHold E o then
    toChainFormat (o.margin + max rate 0 * o.getFillable * o.orderInfo.price)
      E.market.quoteDecimals
  else 0

/-- What cancelling an order at a taker fee rate releases, in chain format. -/
def refundAt (E : ConditionalEnv ℚ) (o : IDerivativeOrder ℚ) (rate : ℚ) : ℚ :=
  if HasHold E o then
    toChainFormat (ConditionalState.getCancelRefundAmount rate o) E.market.quoteDecimals
  else 0

/-- An order as it was placed: nothing of it is filled. -/
structure Stored (o : IDerivativeOrder ℚ) : Prop where
  quantity_pos : 0 < o.orderInfo.quantity
  price_pos : 0 < o.orderInfo.price
  margin_nonneg : 0 ≤ o.margin
  fillable : o.getFillable = o.orderInfo.quantity

theorem toChainFormat_nonneg_iff (x : ℚ) (decimals : ℕ) : 0 ≤ toChainFormat x decimals ↔ 0 ≤ x := by
  rw [toChainFormat_eq_zsmul, zsmul_eq_mul]
  exact mul_nonneg_iff_of_pos_left (by positivity)

variable {o : IDerivativeOrder ℚ}

theorem holdAt_reprice (h : HasHold E o) (rate newRate : ℚ) :
    holdAt E o newRate = holdAt E o rate + feeDifference E (max newRate 0 - max rate 0) o := by
  rw [holdAt, holdAt, if_pos h, if_pos h, feeDifference, ← toChainFormat_add]
  congr 1
  simp only [mul_rat]
  ring

theorem holdAt_of_not_hasHold (h : ¬HasHold E o) (rate : ℚ) : holdAt E o rate = 0 :=
  if_neg h

variable {rate newRate : ℚ}

theorem holdAt_nonneg (h : Stored o) (rate : ℚ) : 0 ≤ holdAt E o rate := by
  rw [holdAt]
  split
  · rw [toChainFormat_nonneg_iff, h.fillable]
    have hfee := mul_nonneg (mul_nonneg (le_max_right rate 0) h.quantity_pos.le) h.price_pos.le
    exact add_nonneg h.margin_nonneg hfee
  · exact le_refl 0

/-- **LIMIT ORDERS** are refunded their hold at the rate of the cancel. -/
theorem refundAt_limit (h : Stored o) (hlimit : o.isLimit = true) (rate : ℚ) :
    refundAt E o rate = holdAt E o rate := by
  cases o with
  | market o => exact nomatch hlimit
  | limit o =>
    rw [refundAt, holdAt]
    by_cases hhold : HasHold E (.limit o)
    · rw [if_pos hhold, if_pos hhold]
      congr 1
      have hvanilla : o.isReduceOnly = false := decide_eq_false hhold.1
      have hquantity : 0 < o.orderInfo.quantity := h.quantity_pos
      have hfillable : o.fillable = o.orderInfo.quantity := h.fillable
      show ExchangeDerivativeLedger.getCancelRefundAmount o rate =
        o.margin + max rate 0 * o.fillable * o.orderInfo.price
      rw [ExchangeDerivativeLedger.getCancelRefundAmount, hvanilla,
        if_neg Bool.false_ne_true, if_neg (not_not.mpr hquantity), hfillable]
      simp only [mul_rat, quo_rat]
      rw [mul_div_cancel_left₀ _ hquantity.ne']
      ring
    · rw [if_neg hhold, if_neg hhold]

variable {prev new : ℚ}

theorem feeRefundRate_eq (hprev : 0 < prev) : min prev (prev - new) = max prev 0 - max new 0 := by
  rw [max_eq_left hprev.le]
  rcases le_total 0 new with h | h
  · rw [max_eq_left h, min_eq_right (sub_le_self prev h)]
  · rw [max_eq_right h, sub_zero, min_eq_left (by linarith)]

/-! ## Records -/

/-- What has been charged for an order and not released. -/
def HoldRecord.outstanding (r : HoldRecord ℚ) : ℚ :=
  r.placementHold + r.extraCharged - r.released

/-- What is known of an order whose hold is meant to follow `rate`. A market order is
    refunded what it was charged at placement, whatever the rate. -/
structure HoldRecord.Balanced (E : ConditionalEnv ℚ) (rate : ℚ) (r : HoldRecord ℚ) :
    Prop where
  stored : Stored r.order
  placement : r.placementHold = holdAt E r.order r.placedAt
  marketRefund : r.order.isLimit = false → ∀ x, refundAt E r.order x = r.placementHold
  outstanding : r.outstanding = match r.cancelledAt with
    | none => holdAt E r.order rate
    | some cancelRate => holdAt E r.order cancelRate - refundAt E r.order cancelRate

variable {r : HoldRecord ℚ}

theorem HoldRecord.Balanced.refund_nonneg (h : r.Balanced E rate) (x : ℚ) :
    0 ≤ refundAt E r.order x := by
  cases hlimit : r.order.isLimit with
  | true =>
    rw [refundAt_limit h.stored hlimit]
    exact holdAt_nonneg h.stored x
  | false =>
    rw [h.marketRefund hlimit, h.placement]
    exact holdAt_nonneg h.stored _

/-- Stored orders and open records are the same, and every record is balanced at the rate
    that `ρ` gives for its order. -/
structure Inv (E : ConditionalEnv ℚ) (ρ : Hash → ℚ) (s : ConditionalState ℚ) : Prop where
  hashes : (s.orders.map IDerivativeOrder.orderHash).Nodup
  live : ∀ o ∈ s.orders, ∃ r, s.record o.orderHash = some r ∧ r.order = o ∧
    r.cancelledAt = none
  stored : ∀ h r, s.record h = some r → r.cancelledAt = none →
    r.order ∈ s.orders ∧ r.order.orderHash = h
  balanced : ∀ h r, s.record h = some r → r.Balanced E (ρ h)

variable {s : ConditionalState ℚ} {ρ ρ' : Hash → ℚ} {o : IDerivativeOrder ℚ}

theorem Inv.eq_of_orderHash (h : Inv E ρ s) {o' : IDerivativeOrder ℚ} (ho : o ∈ s.orders)
    (ho' : o' ∈ s.orders) (heq : o.orderHash = o'.orderHash) : o = o' :=
  List.inj_on_of_nodup_map h.hashes ho ho' heq

theorem Inv.congr (h : Inv E ρ s) (hρ : ∀ o ∈ s.orders, holdAt E o (ρ o.orderHash) =
    holdAt E o (ρ' o.orderHash)) : Inv E ρ' s := by
  refine { h with balanced := ?_ }
  intro k r hr
  have hb := h.balanced k r hr
  refine { hb with outstanding := hb.outstanding.trans ?_ }
  cases hcancelled : r.cancelledAt with
  | some c => rfl
  | none =>
    obtain ⟨hmem, rfl⟩ := h.stored k r hr hcancelled
    exact hρ r.order hmem

variable {s' : ConditionalState ℚ}

/-- **ONE RECORD** is written: the invariant holds again once the record is balanced and its
    order is stored exactly while the record is open. -/
theorem Inv.write (h : Inv E ρ s)
    (hrecord : s'.record = Function.update s.record r.order.orderHash (some r))
    (hr : r.Balanced E (ρ' r.order.orderHash)) (hρ : ∀ k, k ≠ r.order.orderHash → ρ' k = ρ k)
    (hhashes : (s'.orders.map IDerivativeOrder.orderHash).Nodup)
    (horders : ∀ o, o ∈ s'.orders ↔ o = r.order ∧ r.cancelledAt = none ∨
      o ∈ s.orders ∧ o.orderHash ≠ r.order.orderHash) : Inv E ρ' s' := by
  have hself : s'.record r.order.orderHash = some r := by rw [hrecord, Function.update_self]
  have hother : ∀ k, k ≠ r.order.orderHash → s'.record k = s.record k := by
    intro k hk
    rw [hrecord, Function.update_of_ne hk]
  refine ⟨hhashes, ?_, ?_, ?_⟩
  · intro o ho
    rcases (horders o).mp ho with ⟨rfl, hopen⟩ | ⟨ho, hne⟩
    · exact ⟨r, hself, rfl, hopen⟩
    · obtain ⟨r', hr', hrest⟩ := h.live o ho
      exact ⟨r', (hother _ hne).trans hr', hrest⟩
  · intro k r' hr' hopen
    by_cases hk : k = r.order.orderHash
    · obtain rfl := Option.some.inj (hself.symm.trans (hk ▸ hr'))
      exact ⟨(horders _).mpr (Or.inl ⟨rfl, hopen⟩), hk.symm⟩
    · obtain ⟨hmem, rfl⟩ := h.stored k r' ((hother k hk).symm.trans hr') hopen
      exact ⟨(horders _).mpr (Or.inr ⟨hmem, hk⟩), rfl⟩
  · intro k r' hr'
    by_cases hk : k = r.order.orderHash
    · obtain rfl := Option.some.inj (hself.symm.trans (hk ▸ hr'))
      exact hk ▸ hr
    · rw [hρ k hk]
      exact h.balanced k r' ((hother k hk).symm.trans hr')

variable {orderHash : Hash}

theorem updateRecord_record (hr : s.record orderHash = some r)
    (f : HoldRecord ℚ → HoldRecord ℚ) :
    (s.updateRecord orderHash f).record = Function.update s.record orderHash (some (f r)) := by
  rw [updateRecord, hr]
  rfl

variable {f : HoldRecord ℚ → HoldRecord ℚ}

theorem Inv.adjust (h : Inv E ρ s) (ho : o ∈ s.orders)
    (hf : ∀ r, (f r).order = r.order ∧ (f r).placedAt = r.placedAt ∧
      (f r).placementHold = r.placementHold ∧ (f r).cancelledAt = r.cancelledAt)
    (hout : ∀ r, r.outstanding = holdAt E o (ρ o.orderHash) →
      (f r).outstanding = holdAt E o rate) (funds : State ℚ) :
    Inv E (Function.update ρ o.orderHash rate)
      { s.updateRecord o.orderHash f with funds := funds } := by
  obtain ⟨r, hr, rfl, hopen⟩ := h.live o ho
  obtain ⟨horder, hplaced, hhold, hcancelled⟩ := hf r
  have hb := h.balanced _ r hr
  have hb₀ := hb.outstanding
  rw [hopen] at hb₀
  rw [← horder] at hr ⊢
  refine h.write (updateRecord_record hr f) ?_ (fun k hk => Function.update_of_ne hk _ _)
    h.hashes ?_
  · rw [Function.update_self]
    refine ⟨horder ▸ hb.stored, ?_, ?_, ?_⟩
    · rw [horder, hplaced, hhold]
      exact hb.placement
    · rw [horder, hhold]
      exact hb.marketRefund
    · rw [hcancelled, hopen, horder]
      exact hout r hb₀
  · intro o'
    rw [horder, hcancelled]
    constructor
    · intro ho'
      by_cases hk : o'.orderHash = r.order.orderHash
      · exact Or.inl ⟨h.eq_of_orderHash ho' ho hk, hopen⟩
      · exact Or.inr ⟨ho', hk⟩
    · rintro (⟨rfl, -⟩ | ⟨ho', -⟩)
      · exact ho
      · exact ho'

/-! ## Cancelling -/

/-- The state after an order was cancelled. -/
def cancelled (E : ConditionalEnv ℚ) (s : ConditionalState ℚ) (o : IDerivativeOrder ℚ)
    (funds : State ℚ) : ConditionalState ℚ :=
  { s.updateRecord o.orderHash (fun r =>
      { r with released := r.released + refundAt E o s.takerFeeRate
               cancelledAt := some s.takerFeeRate }) with
    orders := s.orders.erase o, funds := funds }

/-- A cancel releases the refund, whichever branch it takes, and deletes the order. -/
theorem refunded_eq_cancelled (bankSend : Bool) (h : 0 ≤ refundAt E o s.takerFeeRate) :
    ∃ funds, (if 0 < ConditionalState.getCancelRefundAmount s.takerFeeRate o then
        s.refundDerivativeMarketOrderCancel E bankSend o
          (ConditionalState.getCancelRefundAmount s.takerFeeRate o)
      else s).deleteConditionalDerivativeOrder o = cancelled E s o funds := by
  -- without a refund only the deletion is noted
  have hnone : refundAt E o s.takerFeeRate = 0 →
      s.deleteConditionalDerivativeOrder o = cancelled E s o s.funds := by
    intro hzero
    simp only [cancelled, hzero, add_zero]
    rfl
  set refundAmount := ConditionalState.getCancelRefundAmount s.takerFeeRate o with hrefundAmount
  by_cases hpos : 0 < refundAmount
  · rw [if_pos hpos, refundDerivativeMarketOrderCancel]
    by_cases hcross : E.isCrossMargin o.subaccountID = true
    · rw [if_pos hcross]
      refine ⟨_, hnone (if_neg ?_)⟩
      exact fun hhold => absurd hcross (Bool.eq_false_iff.mp hhold.2)
    · rw [if_neg hcross]
      have hvanilla : o.margin ≠ 0 := by
        intro hzero
        refine hpos.ne' (hrefundAmount.trans ?_)
        cases o with
        | limit o | market o => exact if_pos (decide_eq_true hzero)
      have hrefund : refundAt E o s.takerFeeRate =
          toChainFormat refundAmount E.market.quoteDecimals :=
        if_pos ⟨hvanilla, Bool.eq_false_iff.mpr hcross⟩
      refine ⟨s.funds.incrementAvailableBalanceOrBank bankSend o.subaccountID E.quoteDenom
        (refundAt E o s.takerFeeRate), ?_⟩
      rw [release_eq]
      simp only [cancelled, deleteConditionalDerivativeOrder, updateRecord, hrefund,
        Function.update_self, Function.update_idem, Option.map_map]
      rfl
  · rw [if_neg hpos]
    refine ⟨_, hnone ?_⟩
    by_cases hhold : HasHold E o
    · have hrefund : refundAt E o s.takerFeeRate =
          toChainFormat refundAmount E.market.quoteDecimals := if_pos hhold
      have hzero : refundAmount = 0 := by
        rw [hrefund, toChainFormat_nonneg_iff] at h
        exact le_antisymm (not_lt.mp hpos) h
      rw [hrefund, hzero, toChainFormat_zero]
    · exact if_neg hhold

theorem cancelConditionalOrder_ok (h : Inv E ρ s) {isLimit bankSend : Bool}
    {subaccountID : Hash}
    (hcancel : s.cancelConditionalOrder E isLimit bankSend subaccountID orderHash = .ok s') :
    ∃ o ∈ s.orders, o.orderHash = orderHash ∧ ∃ funds, s' = cancelled E s o funds := by
  rw [cancelConditionalOrder] at hcancel
  split at hcancel
  · exact nomatch hcancel
  rename_i o hfind
  have hmem := List.mem_of_find?_eq_some hfind
  have hmatches := List.find?_some hfind
  simp only [Bool.and_eq_true, beq_iff_eq] at hmatches
  obtain ⟨r, hr, rfl, -⟩ := h.live o hmem
  obtain ⟨funds, hfunds⟩ := refunded_eq_cancelled (s := s) bankSend
    ((h.balanced _ r hr).refund_nonneg s.takerFeeRate)
  exact ⟨r.order, hmem, hmatches.2, funds, (Except.ok.inj hcancel).symm.trans hfunds⟩

section Stored

variable (h : Inv E ρ s) (ho : o ∈ s.orders)
include h ho

theorem cancelConditionalOrder_stored (bankSend : Bool) :
    ∃ funds, s.cancelConditionalOrder E o.isLimit bankSend o.subaccountID o.orderHash =
      .ok (cancelled E s o funds) := by
  cases hcancel : s.cancelConditionalOrder E o.isLimit bankSend o.subaccountID o.orderHash with
  | ok s' =>
    obtain ⟨o', ho', hhash, funds, rfl⟩ := cancelConditionalOrder_ok h hcancel
    obtain rfl := h.eq_of_orderHash ho' ho hhash
    exact ⟨funds, rfl⟩
  | error e =>
    rw [cancelConditionalOrder] at hcancel
    split at hcancel
    · next hnone =>
        have hmissing := List.find?_eq_none.mp hnone o ho
        simp at hmissing
    · exact nomatch hcancel

theorem Inv.cancelled (hrate : ρ o.orderHash = s.takerFeeRate)
    (hρ : ∀ k, k ≠ o.orderHash → ρ' k = ρ k) (funds : State ℚ) :
    Inv E ρ' (cancelled E s o funds) := by
  obtain ⟨r, hr, rfl, hopen⟩ := h.live o ho
  have hb := h.balanced _ r hr
  have hb₀ := hb.outstanding
  rw [hopen, hrate] at hb₀
  refine h.write (r := { r with released := r.released + refundAt E r.order s.takerFeeRate
                                cancelledAt := some s.takerFeeRate })
    (updateRecord_record hr _) { hb with outstanding := ?_ } hρ
    (h.hashes.sublist (List.erase_sublist.map _)) ?_
  · show r.placementHold + r.extraCharged - (r.released + refundAt E r.order s.takerFeeRate) =
      holdAt E r.order s.takerFeeRate - refundAt E r.order s.takerFeeRate
    rw [sub_add_eq_sub_sub]
    exact congrArg (· - _) hb₀
  · intro o'
    rw [show o' ∈ (ExchangeConditionalFees.cancelled E s r.order funds).orders ↔
      o' ∈ s.orders.erase r.order from Iff.rfl, (List.Nodup.of_map _ h.hashes).mem_erase_iff]
    constructor
    · rintro ⟨hne, ho'⟩
      exact Or.inr ⟨ho', fun hk => hne (h.eq_of_orderHash ho' ho hk)⟩
    · rintro (⟨-, hnone⟩ | ⟨ho', hk⟩)
      · cases hnone
      · exact ⟨fun heq => hk (congrArg _ heq), ho'⟩

/-! ## Fee changes -/

/-- What handling one order of a fee change does: the order is at the new rate or gone,
    and no other one is touched. -/
structure Repriced (E : ConditionalEnv ℚ) (ρ : Hash → ℚ) (newRate : ℚ)
    (s : ConditionalState ℚ) (o : IDerivativeOrder ℚ) (s' : ConditionalState ℚ) : Prop where
  inv : Inv E (Function.update ρ o.orderHash newRate) s'
  takerFeeRate : s'.takerFeeRate = s.takerFeeRate
  subset : s'.orders ⊆ s.orders
  others : s.orders.erase o ⊆ s'.orders

theorem Inv.repriced_self (newRate : ℚ) (hhold : ¬HasHold E o) : Repriced E ρ newRate s o s := by
  refine ⟨h.congr ?_, rfl, List.Subset.refl _, List.erase_subset⟩
  intro o' ho'
  by_cases hk : o'.orderHash = o.orderHash
  · obtain rfl := h.eq_of_orderHash ho' ho hk
    rw [holdAt_of_not_hasHold hhold, holdAt_of_not_hasHold hhold]
  · rw [Function.update_of_ne hk]

theorem Inv.repriced (hhold : HasHold E o)
    (hf : ∀ r, (f r).order = r.order ∧ (f r).placedAt = r.placedAt ∧
      (f r).placementHold = r.placementHold ∧ (f r).cancelledAt = r.cancelledAt)
    (hout : ∀ r, (f r).outstanding = r.outstanding +
      feeDifference E (max newRate 0 - max (ρ o.orderHash) 0) o)
    (funds : State ℚ) :
    Repriced E ρ newRate s o { s.updateRecord o.orderHash f with funds := funds } := by
  refine ⟨h.adjust ho hf ?_ funds, rfl, List.Subset.refl _, List.erase_subset⟩
  intro r hr
  rw [hout, hr, holdAt_reprice hhold (ρ o.orderHash) newRate]

end Stored

/-- The checks of the handlers ask for a hold. -/
theorem ite_hasHold {α : Type} (x y : α) :
    (if o.margin = 0 then x else if E.isCrossMargin o.subaccountID = true then x else y) =
      if HasHold E o then y else x := by
  by_cases hzero : o.margin = 0
  · rw [if_pos hzero, if_neg (fun hhold => hhold.1 hzero)]
  · by_cases hcross : E.isCrossMargin o.subaccountID = true
    · rw [if_neg hzero, if_pos hcross, if_neg (fun hhold => Bool.eq_false_iff.mp hhold.2 hcross)]
    · rw [if_neg hzero, if_neg hcross, if_pos ⟨hzero, Bool.eq_false_iff.mpr hcross⟩]

theorem feeDifference_neg (rate : ℚ) (o : IDerivativeOrder ℚ) :
    feeDifference E (-rate) o = -feeDifference E rate o := by
  simp only [feeDifference, toChainFormat, mul_rat]
  ring

theorem decreaseRate_repriced (h : Inv E ρ s) (ho : o ∈ s.orders)
    (outcomes : Hash → Outcomes) (newRate : ℚ) (hprev : 0 < ρ o.orderHash) :
    Repriced E ρ newRate s o (decreaseRate E outcomes
      (min (ρ o.orderHash) (ρ o.orderHash - newRate)) s o) := by
  rw [decreaseRate, ite_hasHold, feeRefundRate_eq hprev]
  split
  · rename_i hhold
    rw [release_eq]
    refine h.repriced ho hhold (f := fun r => { r with released := r.released + _ })
      (fun r => ⟨rfl, rfl, rfl, rfl⟩) ?_ _
    intro r
    rw [← neg_sub (max (ρ o.orderHash) 0), feeDifference_neg]
    show r.placementHold + r.extraCharged - (r.released + _) = _ - _ + -_
    ring
  · rename_i hhold
    exact h.repriced_self ho newRate hhold

theorem tryChargeExtraFee_repriced (h : Inv E ρ s) (ho : o ∈ s.orders)
    {env : State.ChargeOutcomes} (hnew : 0 < newRate)
    (htry : s.tryChargeExtraFeeForDerivativeOrder E env
      (min newRate (newRate - ρ o.orderHash)) o = some s') : Repriced E ρ newRate s o s' := by
  rw [tryChargeExtraFeeForDerivativeOrder, ite_hasHold, feeRefundRate_eq hnew] at htry
  split at htry
  · rename_i hhold
    dsimp only at htry
    split at htry
    · cases hcharge : s.charge E env o
          (feeDifference E (max newRate 0 - max (ρ o.orderHash) 0) o) with
      | error e => rw [hcharge] at htry; cases htry
      | ok u =>
      rw [hcharge] at htry
      obtain rfl := Option.some.inj htry
      obtain ⟨funds, rfl⟩ := charge_ok hcharge
      refine h.repriced ho hhold
        (f := fun r => { r with extraCharged := r.extraCharged + _ })
        (fun r => ⟨rfl, rfl, rfl, rfl⟩) ?_ _
      intro r
      show r.placementHold + (r.extraCharged + _) - r.released = _ - _ + _
      ring
    · exact nomatch htry
  · rename_i hhold
    exact Option.some.inj htry ▸ h.repriced_self ho newRate hhold

theorem increaseRate_repriced (h : Inv E ρ s) (ho : o ∈ s.orders)
    (hrate : ρ o.orderHash = s.takerFeeRate) (outcomes : Hash → Outcomes) (hnew : 0 < newRate) :
    Repriced E ρ newRate s o (increaseRate E outcomes
      (min newRate (newRate - ρ o.orderHash)) s o) := by
  rw [increaseRate]
  cases htry : s.tryChargeExtraFeeForDerivativeOrder E (outcomes o.orderHash).charge
    (min newRate (newRate - ρ o.orderHash)) o with
  | some s' => exact tryChargeExtraFee_repriced h ho hnew htry
  | none =>
    -- an order that was not charged is cancelled at the previous rate
    obtain ⟨funds, hcancel⟩ := cancelConditionalOrder_stored h ho (outcomes o.orderHash).bankSend
    simp only [hcancel]
    exact ⟨h.cancelled ho hrate (fun k hk => Function.update_of_ne hk _ _) funds, rfl,
      List.erase_subset, List.Subset.refl _⟩

/-- **ALL ORDERS, ONE BY ONE**: handling the loaded orders moves each of them to the new
    rate. -/
theorem foldl_reprice {step : ConditionalState ℚ → IDerivativeOrder ℚ → ConditionalState ℚ}
    (hstep : ∀ (s : ConditionalState ℚ) ρ, ∀ o ∈ s.orders, Inv E ρ s →
      s.takerFeeRate = prev → ρ o.orderHash = prev → Repriced E ρ new s o (step s o))
    (orderbook : List (IDerivativeOrder ℚ))
    (hnodup : (orderbook.map IDerivativeOrder.orderHash).Nodup) (h : Inv E ρ s)
    (hrate : s.takerFeeRate = prev)
    (hload : ∀ o ∈ orderbook, o ∈ s.orders ∧ ρ o.orderHash = prev) :
    ∃ ρ', Inv E ρ' (orderbook.foldl step s) ∧ (orderbook.foldl step s).orders ⊆ s.orders ∧
      (∀ o ∈ orderbook, ρ' o.orderHash = new) := by
  -- the induction keeps the rates of the orders that have been handled
  suffices hgen : ∃ ρ', Inv E ρ' (orderbook.foldl step s) ∧
      (orderbook.foldl step s).orders ⊆ s.orders ∧
      (∀ o ∈ orderbook, ρ' o.orderHash = new) ∧
      ∀ k, k ∉ orderbook.map IDerivativeOrder.orderHash → ρ' k = ρ k by
    obtain ⟨ρ', hinv, hsub, hnew, -⟩ := hgen
    exact ⟨ρ', hinv, hsub, hnew⟩
  induction orderbook generalizing s ρ with
  | nil => exact ⟨ρ, h, List.Subset.refl _, fun _ ho => (nomatch ho), fun _ _ => rfl⟩
  | cons o rest ih =>
    obtain ⟨hfresh, hrest⟩ := List.nodup_cons.mp hnodup
    obtain ⟨ho, hρo⟩ := hload o List.mem_cons_self
    have hone := hstep s ρ o ho h hrate hρo
    have hne : ∀ o' ∈ rest, o'.orderHash ≠ o.orderHash :=
      fun o' ho' hk => hfresh (hk ▸ List.mem_map_of_mem ho')
    obtain ⟨ρ', hinv, hsub, hnew, hkeep⟩ := ih hrest hone.inv
      (hone.takerFeeRate.trans hrate) (by
        intro o' ho'
        obtain ⟨hmem, hρ⟩ := hload o' (List.mem_cons_of_mem _ ho')
        refine ⟨hone.others ((List.mem_erase_of_ne ?_).mpr hmem), ?_⟩
        · rintro rfl
          exact hne o' ho' rfl
        · rw [Function.update_of_ne (hne o' ho'), hρ])
    refine ⟨ρ', hinv, List.Subset.trans hsub hone.subset, ?_, ?_⟩
    · intro o' ho'
      rcases List.mem_cons.mp ho' with rfl | ho'
      · rw [hkeep _ hfresh, Function.update_self]
      · exact hnew o' ho'
    · intro k hk
      rw [List.map_cons, List.mem_cons, not_or] at hk
      rw [hkeep k hk.2, Function.update_of_ne hk.1]

/-- **A FEE CHANGE** moves every hold to the new rate, or cancels the order. -/
theorem updateTakerFeeRate_inv (h : Inv E (fun _ => s.takerFeeRate) s)
    (outcomes : Hash → Outcomes) (newRate : ℚ) :
    Inv E (fun _ => newRate) (s.updateTakerFeeRate E outcomes newRate) := by
  have hperm := getAllConditionalDerivativeOrders_perm s
  have hnodup : (s.getAllConditionalDerivativeOrders.map
      IDerivativeOrder.orderHash).Nodup := (hperm.map _).nodup_iff.mpr h.hashes
  -- what is left after the loop was loaded, so it is at the new rate
  have hfold : ∀ {step : ConditionalState ℚ → IDerivativeOrder ℚ → ConditionalState ℚ},
      (∀ (u : ConditionalState ℚ) ρ, ∀ o ∈ u.orders, Inv E ρ u →
        u.takerFeeRate = s.takerFeeRate → ρ o.orderHash = s.takerFeeRate →
        Repriced E ρ newRate u o (step u o)) →
      Inv E (fun _ => newRate) (s.getAllConditionalDerivativeOrders.foldl step s) := by
    intro step hstep
    obtain ⟨ρ', hinv, hsub, hnew⟩ := foldl_reprice hstep _ hnodup h rfl
      (fun o ho => ⟨hperm.subset ho, rfl⟩)
    refine hinv.congr ?_
    intro o ho
    rw [hnew o (hperm.symm.subset (hsub ho))]
  -- no hold changes between rates without a positive part
  have hsame : max s.takerFeeRate 0 = max newRate 0 → Inv E (fun _ => newRate) s :=
    fun hmax => h.congr (fun o _ => by rw [holdAt, holdAt, hmax])
  suffices hhandled : Inv E (fun _ => newRate)
      (s.handleTakerFeeRateChange E outcomes newRate) from { hhandled with }
  rw [handleTakerFeeRateChange]
  rcases lt_trichotomy newRate s.takerFeeRate with hlt | heq | hgt
  · rw [if_pos hlt, handleDerivativeFeeDecreaseForConditionals]
    by_cases hpos : 0 < s.takerFeeRate
    · rw [if_neg (not_not.mpr hpos)]
      refine hfold ?_
      intro u ρ o ho hu hrate hρ
      have hrepriced := decreaseRate_repriced hu ho outcomes newRate (hρ.symm ▸ hpos)
      rwa [hρ] at hrepriced
    · rw [if_pos hpos]
      refine hsame ?_
      rw [max_eq_right (not_lt.mp hpos), max_eq_right (hlt.le.trans (not_lt.mp hpos))]
  · rw [if_neg heq.not_lt, if_neg heq.not_gt]
    exact hsame (by rw [heq])
  · rw [if_neg hgt.not_gt, if_pos hgt, handleDerivativeFeeIncreaseForConditionals]
    by_cases hpos : 0 < newRate
    · rw [if_neg (not_not.mpr hpos)]
      refine hfold ?_
      intro u ρ o ho hu hrate hρ
      have hrepriced := increaseRate_repriced hu ho (hρ.trans hrate.symm) outcomes hpos
      rwa [hρ] at hrepriced
    · rw [if_pos hpos]
      refine hsame ?_
      rw [max_eq_right (not_lt.mp hpos), max_eq_right (hgt.le.trans (not_lt.mp hpos))]

/-! ## Placing -/

variable {triggerPrice marginHold : ℚ}

/-- What is charged is the hold at the rate, in full. -/
theorem reserveDerivativeOrderMargin_ok {charge : State.ChargeOutcomes}
    {funds funds' : State ℚ} {o : DerivativeOrder ℚ}
    (h : reserveDerivativeOrderMargin E charge funds o triggerPrice rate =
      .ok (marginHold, funds')) :
    (marginHold = if o.margin ≠ 0 ∧ E.isCrossMargin o.orderInfo.subaccountID = false then
      o.margin + max rate 0 * o.orderInfo.quantity * o.orderInfo.price else 0) ∧
    spendable E funds o.orderInfo.subaccountID - spendable E funds' o.orderInfo.subaccountID =
      toChainFormat marginHold E.market.quoteDecimals := by
  rw [reserveDerivativeOrderMargin] at h
  -- where nothing is charged, nothing is held
  have hfree : Except.ok (ε := ConditionalOrderError ℚ) (0, funds) = .ok (marginHold, funds') →
      marginHold = 0 ∧ spendable E funds o.orderInfo.subaccountID -
        spendable E funds' o.orderInfo.subaccountID =
          toChainFormat marginHold E.market.quoteDecimals := by
    intro heq
    obtain ⟨rfl, rfl⟩ := Prod.mk.inj (Except.ok.inj heq)
    exact ⟨rfl, (sub_self _).trans (toChainFormat_zero _).symm⟩
  by_cases hzero : o.margin = 0
  · rw [if_pos hzero] at h
    rw [if_neg (fun hhold => hhold.1 hzero)]
    exact hfree h
  · rw [if_neg hzero] at h
    split at h
    · exact nomatch h
    rename_i hold hcheck
    by_cases hcross : E.isCrossMargin o.orderInfo.subaccountID = true
    · rw [if_pos hcross] at h
      rw [if_neg (fun hhold => absurd hcross (Bool.eq_false_iff.mp hhold.2))]
      exact hfree h
    · rw [if_neg hcross] at h
      split at h
      · exact nomatch h
      rename_i funds₁ hcharge
      obtain ⟨rfl, rfl⟩ := Prod.mk.inj (Except.ok.inj h)
      rw [if_pos ⟨hzero, Bool.eq_false_iff.mpr hcross⟩]
      refine ⟨?_, by rw [spendable, spendable, State.getSpendableFunds_chargeAccount hcharge,
        sub_sub_cancel]⟩
      refine (checkMarginAndGetMarginHold_ok hcheck).1.trans ?_
      simp only [getMarginHold, mul_rat]
      ring

/-- The record of a new order is balanced: a market order is refunded what it was
    charged. -/
theorem balanced_new (h : Stored o) (hhold : marginHold = if HasHold E o then
      o.margin + max rate 0 * o.getFillable * o.orderInfo.price else 0)
    (hmarket : o.isLimit = false → HasHold E o →
      ∀ x, ConditionalState.getCancelRefundAmount x o = marginHold) :
    HoldRecord.Balanced E rate
      { order := o, placedAt := rate
        placementHold := toChainFormat marginHold E.market.quoteDecimals
        extraCharged := 0, released := 0, cancelledAt := none } := by
  have hplacement : toChainFormat marginHold E.market.quoteDecimals = holdAt E o rate := by
    rw [hhold, holdAt]
    split
    · rfl
    · exact toChainFormat_zero _
  refine ⟨h, hplacement, ?_, ?_⟩
  · intro hlimit x
    rw [refundAt]
    by_cases hhas : HasHold E o
    · rw [if_pos hhas, hmarket hlimit hhas x]
    · rw [if_neg hhas, hplacement, holdAt_of_not_hasHold hhas]
  · show toChainFormat marginHold _ + 0 - 0 = holdAt E o rate
    rw [add_zero, sub_zero, hplacement]

theorem Inv.insert (h : Inv E ρ s) (hfresh : s.record r.order.orderHash = none)
    (hopen : r.cancelledAt = none) (hr : r.Balanced E (ρ r.order.orderHash)) (position : ℕ)
    (funds : State ℚ) :
    Inv E ρ { s with
              orders := s.orders.take position ++ r.order :: s.orders.drop position
              funds := funds
              record := Function.update s.record r.order.orderHash (some r) } := by
  have hperm : (s.orders.take position ++ r.order :: s.orders.drop position).Perm
      (r.order :: s.orders) := by
    refine List.perm_middle.trans (List.Perm.cons _ ?_)
    rw [List.take_append_drop]
  have hne : ∀ o' ∈ s.orders, o'.orderHash ≠ r.order.orderHash := by
    intro o' ho' hk
    obtain ⟨r', hr', -⟩ := h.live o' ho'
    rw [hk, hfresh] at hr'
    cases hr'
  refine h.write rfl hr (fun _ _ => rfl) ((hperm.map _).nodup_iff.mpr ?_) ?_
  · refine List.nodup_cons.mpr ⟨?_, h.hashes⟩
    intro hmem
    obtain ⟨o', ho', hk⟩ := List.mem_map.mp hmem
    exact hne o' ho' hk
  · intro o'
    rw [hperm.mem_iff, List.mem_cons]
    constructor
    · rintro (rfl | ho')
      · exact Or.inl ⟨rfl, hopen⟩
      · exact Or.inr ⟨ho', hne o' ho'⟩
    · exact Or.imp And.left And.left

theorem createConditionalOrder_inv (h : Inv E (fun _ => s.takerFeeRate) s)
    {outcomes : Outcomes} {isMarketOrder : Bool} {o : DerivativeOrder ℚ} {position : ℕ}
    (htype : o.orderType.isConditional = true) (hquantity : 0 < o.orderInfo.quantity)
    (hprice : 0 < o.orderInfo.price) (hmargin : 0 ≤ o.margin)
    (hfresh : s.record orderHash = none)
    (hcreate : s.createConditionalOrder E outcomes isMarketOrder o orderHash triggerPrice
      position = .ok s') : Inv E (fun _ => s'.takerFeeRate) s' := by
  rw [createConditionalOrder, tradeFeeRate_of_isConditional E s isMarketOrder htype] at hcreate
  split at hcreate
  · exact nomatch hcreate
  split at hcreate
  · exact nomatch hcreate
  rename_i marginHold funds hreserve
  obtain rfl := Except.ok.inj hcreate
  obtain ⟨hhold, hmeasured⟩ := reserveDerivativeOrderMargin_ok hreserve
  rw [hmeasured]
  cases isMarketOrder with
  | false =>
    refine h.insert (r := { order := .limit (newDerivativeLimitOrder o orderHash), .. })
      hfresh rfl (balanced_new ⟨hquantity, hprice, hmargin, rfl⟩ hhold ?_) _ _
    exact fun hlimit => nomatch hlimit
  | true =>
    refine h.insert
      (r := { order := .market (newDerivativeMarketOrder o orderHash marginHold), .. })
      hfresh rfl (balanced_new ⟨hquantity, hprice, hmargin, rfl⟩ hhold ?_) _ _
    intro _ hhas x
    have hvanilla : (newDerivativeMarketOrder o orderHash marginHold).isReduceOnly =
        false := decide_eq_false hhas.1
    show getMarketOrderCancelRefundAmount _ = _
    rw [getMarketOrderCancelRefundAmount, hvanilla, if_neg Bool.false_ne_true]
    exact if_neg hhas.1

/-! ## Whole runs -/

theorem initial_inv (takerFeeRate : ℚ) (funds : State ℚ) :
    Inv E (fun _ => takerFeeRate) (ConditionalState.initial takerFeeRate funds) :=
  ⟨List.nodup_nil, fun _ ho => (nomatch ho), fun _ _ hr => (nomatch hr), fun _ _ hr => (nomatch hr)⟩

/-- What holds before a call and after its success holds with its errors rolled back. -/
theorem getD_of_ok {ε σ : Type} {P : σ → Prop} {s : σ} {r : Except ε σ} (h : P s)
    (hok : ∀ s', r = .ok s' → P s') : P (r.toOption.getD s) := by
  cases r with
  | error e => exact h
  | ok s' => exact hok s' rfl

/-- **AN EVENT** keeps every record balanced at the rate of the market. -/
theorem Event.exec_inv (h : Inv E (fun _ => s.takerFeeRate) s) {e : Event ℚ}
    (hallowed : e.Allowed s) : Inv E (fun _ => (e.exec E s).takerFeeRate) (e.exec E s) := by
  have hcancel : ∀ {isLimit bankSend : Bool} {subaccountID orderHash : Hash} {s'},
      s.cancelConditionalOrder E isLimit bankSend subaccountID orderHash = .ok s' →
        Inv E (fun _ => s'.takerFeeRate) s' := by
    intro isLimit bankSend subaccountID orderHash s' hcancel
    obtain ⟨o, ho, -, funds, rfl⟩ := cancelConditionalOrder_ok h hcancel
    exact h.cancelled ho rfl (fun _ _ => rfl) funds
  obtain ⟨action, outcomes⟩ := e
  cases action with
  | create isMarketOrder order orderHash triggerPrice position =>
    obtain ⟨htype, hquantity, hprice, hmargin, hfresh⟩ := hallowed
    exact getD_of_ok (P := fun u => Inv E (fun _ => u.takerFeeRate) u) h (fun _ hcreate =>
      createConditionalOrder_inv h htype hquantity hprice hmargin hfresh hcreate)
  | changeTakerFeeRate newRate => exact updateTakerFeeRate_inv h outcomes newRate
  | cancelLimit subaccountID orderHash | cancelMarket subaccountID orderHash =>
    exact getD_of_ok (P := fun u => Inv E (fun _ => u.takerFeeRate) u) h (fun _ => hcancel)
  | otherFunds funds => exact { h with }

/-- **A RUN** keeps every record balanced. -/
theorem run_inv (events : List (Event ℚ)) (h : Inv E (fun _ => s.takerFeeRate) s)
    (hvalid : Valid E s events) :
    Inv E (fun _ => (run E events s).takerFeeRate) (run E events s) := by
  induction events generalizing s with
  | nil => exact h
  | cons e rest ih => exact ih (e.exec_inv h hvalid.1) hvalid.2

/-- **HOLDS OF CONDITIONAL ORDERS**, reading decimals as exact rationals, over every
    sequence of placements, taker fee changes, cancels and other uses of the deposits: a
    cancelled limit order was released exactly its hold at placement and the extra fees.
    A cancelled market order was so exactly if the positive part of the taker fee rate was
    the same when it was placed and when it was cancelled. -/
theorem conditional_hold_released_iff (E : ConditionalEnv ℚ) (takerFeeRate : ℚ)
    (funds : State ℚ) (events : List (Event ℚ))
    (hvalid : Valid E (.initial takerFeeRate funds) events) (orderHash : Hash)
    (r : HoldRecord ℚ)
    (hr : (run E events (.initial takerFeeRate funds)).record orderHash = some r)
    (cancelRate : ℚ) (hcancelled : r.cancelledAt = some cancelRate)
    (hvanilla : r.order.margin ≠ 0)
    (hisolated : E.isCrossMargin r.order.subaccountID = false) :
    r.released - r.extraCharged = r.placementHold ↔
      (r.order.isLimit = true ∨ max cancelRate 0 = max r.placedAt 0) := by
  have hb := (run_inv events (initial_inv takerFeeRate funds) hvalid).balanced orderHash r hr
  have hout := hb.outstanding
  rw [hcancelled] at hout
  change r.placementHold + r.extraCharged - r.released = _ at hout
  have hzero : r.released - r.extraCharged = r.placementHold ↔
      holdAt E r.order cancelRate = refundAt E r.order cancelRate := by
    constructor
    · intro heq
      linarith
    · intro heq
      linarith
  rw [hzero]
  cases hlimit : r.order.isLimit with
  | true =>
    rw [refundAt_limit hb.stored hlimit]
    exact ⟨fun _ => Or.inl rfl, fun _ => rfl⟩
  | false =>
    -- the refund is the hold at placement, so the two fees are compared
    rw [hb.marketRefund hlimit, hb.placement, holdAt_reprice ⟨hvanilla, hisolated⟩ r.placedAt,
      add_eq_left]
    have hfactor : feeDifference E (max cancelRate 0 - max r.placedAt 0) r.order =
        (max cancelRate 0 - max r.placedAt 0) *
          (r.order.orderInfo.quantity * r.order.orderInfo.price * 10 ^ E.market.quoteDecimals) := by
      simp only [feeDifference, toChainFormat, mul_rat, newDec_rat, hb.stored.fillable]
      push_cast
      ring
    have hpos : r.order.orderInfo.quantity * r.order.orderInfo.price *
        10 ^ E.market.quoteDecimals ≠ 0 :=
      (mul_pos (mul_pos hb.stored.quantity_pos hb.stored.price_pos) (by positivity)).ne'
    rw [hfactor, mul_eq_zero_iff_right hpos, sub_eq_zero]
    exact ⟨Or.inr, fun hor => hor.resolve_left Bool.false_ne_true⟩

/-! ## Samples -/

/-- A perpetual market with a taker fee of 0.2%, and isolated margin only. -/
def sampleEnv : ConditionalEnv ℚ :=
  { market := sampleMarket, quoteDenom := "usdt", isCrossMargin := fun _ => false
    atomicExecutionFeeMultiplier := 2 }

/-- Subaccount 1 has deposited 1000 usdt. -/
def sampleState : ConditionalState ℚ :=
  .initial sampleMarket.takerFeeRate
    { deposits := Function.update (fun _ => ⟨0, 0⟩) (1, "usdt") ⟨1000000000, 1000000000⟩
      accounts := fun _ => 0, exchangeModule := fun _ => 1000000000 }

/-- An event in which every check and transfer succeeds. -/
def sampleEvent (action : Action ℚ) : Event ℚ :=
  { action := action
    outcomes := fun _ => ⟨true, ⟨true, true, false⟩, true⟩ }

/-- A stop buy of 4 at 10 with a margin of 8, placed as order 7. -/
def samplePlace (isMarketOrder : Bool) : Event ℚ :=
  sampleEvent (.create isMarketOrder { sampleOrder with orderType := .stopBuy } 7 9 0)

/-- A limit order is placed at 0.2% and held through 0.4% and 0.1%. -/
def sampleLimitRun : List (Event ℚ) :=
  [samplePlace false, sampleEvent (.changeTakerFeeRate (1 / 250)),
    sampleEvent (.changeTakerFeeRate (1 / 1000)), sampleEvent (.cancelLimit 1 7)]

/-- The order paid 8.08 and 0.08 and got back 0.12 and 8.04. -/
theorem conditional_hold_released_iff_sample :
    ∃ r, (run sampleEnv sampleLimitRun sampleState).record 7 = some r ∧
      r.placementHold = 8080000 ∧ r.extraCharged = 80000 ∧
      r.released - r.extraCharged = r.placementHold := by
  refine ⟨{ order := .limit (newDerivativeLimitOrder
              { sampleOrder with orderType := .stopBuy } 7)
            placedAt := 1 / 500, placementHold := 8080000, extraCharged := 80000
            released := 8160000, cancelledAt := some (1 / 1000) }, ?_, rfl, rfl, ?_⟩
  · decide +kernel
  · refine (conditional_hold_released_iff sampleEnv sampleMarket.takerFeeRate
      sampleState.funds sampleLimitRun ?_ 7 _ ?_ (1 / 1000) rfl ?_ rfl).mpr (Or.inl rfl)
    · decide +kernel
    · decide +kernel
    · decide +kernel

/-- A market order is placed at 0.2% and cancelled at 0.1%. -/
def sampleMarketRun : List (Event ℚ) :=
  [samplePlace true, sampleEvent (.changeTakerFeeRate (1 / 1000)),
    sampleEvent (.cancelMarket 1 7)]

/-- The order paid 8.08. It got back 0.04 when the fee fell and 8.08 when it was cancelled,
    and the available balance is now above the total one. -/
theorem market_order_refunded_twice :
    Valid sampleEnv sampleState sampleMarketRun ∧
      ((run sampleEnv sampleMarketRun sampleState).record 7).map
        (fun r => (r.placementHold, r.extraCharged, r.released, r.cancelledAt)) =
          some (8080000, 0, 8120000, some (1 / 1000)) ∧
      (run sampleEnv sampleMarketRun sampleState).funds.getDeposit 1 "usdt" =
        ⟨1000040000, 1000000000⟩ := by
  refine ⟨?_, ?_, ?_⟩
  · decide +kernel
  · decide +kernel
  · decide +kernel

end Exact

end ExchangeConditionalFees
