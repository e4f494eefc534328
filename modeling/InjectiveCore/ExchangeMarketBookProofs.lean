import InjectiveCore.ExchangeLinkedBooksProofs

/-!
# Derivative market order books

Market orders are matched in the order in which they came, one after the other. Each
time an order comes up it goes through the checks of `shouldSkipOrder`; one that fails is
passed over for good, whatever it had been filled before. Unlike a limit order book, a
market order book makes the closing checks only outside liquidations, takes the atomic
fee rate into account, and holds every order to the open notional cap.

- `peek_spec`: a peek passes orders over and looks positions up, and moves no fill.
- `sideSpec` and `marketOps_positionSpec`: the book is a side of the matching loop, with
  no order among prices, and pays what it owes the shared positions.
-/

namespace ExchangeMarketBook

open DecArith MatchLoop GrossExposure ExchangePosition ExchangeFees ExchangeDerivativeFill
  ExchangeMatchState ExchangeDerivativeBook ExchangeLinkedBooks

variable {R D : Type} [DecArith D]

/-! ## The book -/

/-- A market order with its fill quantity; `olrDecremented` says that its index is in
    `olrDecrementedOrders`. -/
structure MarketFill (D : Type) where
  order : DerivativeMarketOrder D
  fillQuantity : D
  olrDecremented : Bool
  deriving DecidableEq, Repr

namespace MarketFill

/-- `getCurrOrderFillableQuantity`. -/
def remaining (e : MarketFill D) : D := e.order.orderInfo.quantity - e.fillQuantity

/-- The order with more of it filled. -/
def add (e : MarketFill D) (fillQuantity : D) : MarketFill D :=
  { e with fillQuantity := e.fillQuantity + fillQuantity }

/-- The order, passed over by a check. -/
def skip (e : MarketFill D) : MarketFill D := { e with olrDecremented := true }

/-- An order and what it was filled. -/
def core (e : MarketFill D) : DerivativeMarketOrder D × D := (e.order, e.fillQuantity)

end MarketFill

/-- `MarketOrderbook`. The orders are split at `orderIdx`. -/
structure MarketOrderbook (D : Type) where
  isBuy : Bool
  isLiquidation : Bool
  notional : D
  totalQuantity : D
  passed : List (MarketFill D)
  pending : List (MarketFill D)
  counters : CapCounters D
  deriving DecidableEq, Repr

namespace MarketOrderbook

/-- A book before matching. -/
def initial (derivativeMarketOrders : List (DerivativeMarketOrder D))
    (isBuy isLiquidation : Bool) : MarketOrderbook D :=
  { isBuy := isBuy
    isLiquidation := isLiquidation
    notional := 0
    totalQuantity := 0
    passed := []
    pending := derivativeMarketOrders.map (fun o => ⟨o, 0, false⟩)
    counters := .initial }

/-- `NewDerivativeMarketOrderbook`: nil without orders. -/
def newDerivativeMarketOrderbook (derivativeMarketOrders : List (DerivativeMarketOrder D))
    (isBuy isLiquidation : Bool) : Option (MarketOrderbook D) :=
  if derivativeMarketOrders.isEmpty then none
  else some (initial derivativeMarketOrders isBuy isLiquidation)

/-- `GetOrders` with `GetOrderbookFillQuantities`. -/
def orders (b : MarketOrderbook D) : List (MarketFill D) := b.passed ++ b.pending

/-- `getTradeFeeRate`: atomic orders pay a multiple of the taker fee. -/
def getTradeFeeRate (E : MatchEnv R D) (order : DerivativeMarketOrder D) : D :=
  if order.orderType.isAtomic then
    mul E.fill.market.takerFeeRate E.atomicExecutionFeeMultiplier
  else E.fill.market.takerFeeRate

/-- `initializedPositionState`: nothing happens if the position state is there. -/
def initializedPositionState (E : MatchEnv R D) (isBuy : Bool) (c : MatchState R D)
    (subaccountID : Hash) : MatchState R D :=
  if (c.positionStates subaccountID).isSome then c
  else (checkAndInitializePosition E isBuy c subaccountID).2

/-- `shouldSkipForClosingPosition`, for a position that has been looked up. -/
def shouldSkipForClosingPosition (E : MatchEnv R D) (b : MarketOrderbook D) (risk : R)
    (position : Position D) (e : MarketFill D) : Bool :=
  if b.isLiquidation then false
  else if e.order.isReduceOnly &&
      !isValidReduceOnlyOrder position e.order.orderType.isBuy e.remaining then true
  else failsClosingCheck E risk (.market e.order) e.order.orderType.isBuy position
    e.remaining (getTradeFeeRate E e.order)

/-- `shouldSkipOrder`; an order is admitted if it is not skipped. -/
def shouldSkipOrder (E : MatchEnv R D) (opposite : D) (b : MarketOrderbook D)
    (e : MarketFill D) (c₀ : MatchState R D) : Check R D :=
  let order := IDerivativeOrder.market e.order
  let c₁ := initializedPositionState E b.isBuy c₀ order.subaccountID
  let cached := b.counters.cachedAddedOpenNotional
  if !b.isLiquidation &&
      E.riskEngine.checkCrossMarginEmergencyPause c₁.risk order.subaccountID then
    ⟨false, cached, decrementLastLookOLR E c₁ order e.remaining⟩
  else
    let position := (checkAndInitializePosition E b.isBuy c₁ order.subaccountID).1
    let c := (checkAndInitializePosition E b.isBuy c₁ order.subaccountID).2
    if b.shouldSkipForClosingPosition E c.risk position e then
      ⟨false, cached, decrementLastLookOLR E c order e.remaining⟩
    else
      let skip := shouldSkipForMarginRequirement E c order e.order.isReduceOnly e.remaining
      let breach := checkOpenNotionalCap E opposite b.counters skip.2 order e.remaining
      if skip.1 then ⟨false, cached, skip.2⟩
      else if breach.1 then
        ⟨false, breach.2, decrementLastLookOLR E skip.2 order e.remaining⟩
      else ⟨true, breach.2, skip.2⟩

/-- The book with another cached notional delta. -/
def withCached (b : MarketOrderbook D) (cached : D) : MarketOrderbook D :=
  { b with counters := { b.counters with cachedAddedOpenNotional := cached } }

/-- The book with `orderIdx` moved past the order `e`. -/
def pass (b : MarketOrderbook D) (e : MarketFill D) : MarketOrderbook D :=
  { b with passed := b.passed ++ [e], pending := b.pending.tail }

/-- `Peek`, bounded by the number of orders left. -/
def peekLoop (E : MatchEnv R D) (opposite : D) :
    ℕ → MarketOrderbook D → MatchState R D →
      Option (PriceLevel D) × MarketOrderbook D × MatchState R D
  | 0, b, c => (none, b, c)
  | n + 1, b, c =>
    match b.pending with
    | [] => (none, b, c)
    | e :: _ =>
      let check := b.shouldSkipOrder E opposite e c
      let b₁ := b.withCached check.cachedAddedOpenNotional
      if check.admitted then
        if e.remaining = 0 then peekLoop E opposite n (b₁.pass e) check.state
        else (some ⟨e.order.orderInfo.price, e.remaining⟩, b₁, check.state)
      else peekLoop E opposite n (b₁.pass e.skip) check.state

/-- `Peek`. -/
def peek (E : MatchEnv R D) (opposite : D) (b : MarketOrderbook D) (c : MatchState R D) :
    Option (PriceLevel D) × MarketOrderbook D × MatchState R D :=
  peekLoop E opposite b.pending.length b c

/-- `Fill`. -/
def fill (E : MatchEnv R D) (b : MarketOrderbook D) (c : MatchState R D)
    (fillQuantity : D) : MarketOrderbook D × MatchState R D :=
  match b.pending with
  | [] => (b, c)
  | e :: rest =>
    let r := updateNotionalCapValuesAfterFill E b.counters c (.market e.order)
      (getTradeFeeRate E e.order) fillQuantity
    ({ b with
       notional := b.notional + mul fillQuantity e.order.orderInfo.price
       totalQuantity := b.totalQuantity + fillQuantity
       pending := e.add fillQuantity :: rest
       counters := r.1 }, r.2)

end MarketOrderbook

/-! ## What the checks do -/

section Checks

open MarketOrderbook

theorem initializedPositionState_extends (E : MatchEnv R D) (isBuy : Bool)
    (c : MatchState R D) (s : Hash) :
    c.Extends E (initializedPositionState E isBuy c s) := by
  rw [initializedPositionState]
  split
  · exact MatchState.Extends.refl E c
  · exact (checkAndInitializePosition_spec E isBuy c s).1

/-- The checks only look positions up, and an order that passes them has its position
    cached and is within the cap. -/
theorem shouldSkipOrder_spec (E : MatchEnv R D) (opposite : D) (b : MarketOrderbook D)
    (e : MarketFill D) (c : MatchState R D) :
    let check := b.shouldSkipOrder E opposite e c
    c.Extends E check.state ∧ (check.admitted = true →
      (check.state.positionCache e.order.orderInfo.subaccountID).isSome ∧
        PassesCap E opposite (b.withCached check.cachedAddedOpenNotional).counters
          check.state (.market e.order) e.remaining) := by
  have hext₁ := initializedPositionState_extends E b.isBuy c
    (IDerivativeOrder.market e.order).subaccountID
  simp only [shouldSkipOrder]
  set c₁ := initializedPositionState E b.isBuy c (IDerivativeOrder.market e.order).subaccountID
  obtain ⟨hext, hcache⟩ := checkAndInitializePosition_spec E b.isBuy c₁
    (IDerivativeOrder.market e.order).subaccountID
  set c₂ := (checkAndInitializePosition E b.isBuy c₁
    (IDerivativeOrder.market e.order).subaccountID).2
  have hskip := shouldSkipForMarginRequirement_extends (MatchState.Extends.refl E c₂)
    (IDerivativeOrder.market e.order) e.order.isReduceOnly e.remaining
  split
  · exact ⟨decrementLastLookOLR_extends hext₁ _ _, fun h => (nomatch h)⟩
  · split
    · exact ⟨decrementLastLookOLR_extends (hext₁.trans hext) _ _, fun h => (nomatch h)⟩
    · split
      · exact ⟨(hext₁.trans hext).trans hskip, fun h => (nomatch h)⟩
      · split
        · exact ⟨decrementLastLookOLR_extends ((hext₁.trans hext).trans hskip) _ _,
            fun h => (nomatch h)⟩
        · next hbreach =>
            have hcached := hskip.keepsCache e.order.orderInfo.subaccountID (by
              rw [show c₂.positionCache e.order.orderInfo.subaccountID = _ from hcache]
              rfl)
            exact ⟨(hext₁.trans hext).trans hskip,
              fun _ => ⟨hcached, checkOpenNotionalCap_passes hcached hbreach⟩⟩

end Checks

/-! ## The orders of a side -/

/-- The market orders of one direction in a block. -/
structure MarketOrders (D : Type) [DecArith D] (isBuy : Bool) where
  orders : List (DerivativeMarketOrder D)
  direction : ∀ o ∈ orders, o.orderType.isBuy = isBuy
  quantity_nonneg : ∀ o ∈ orders, 0 ≤ o.orderInfo.quantity

/-- The book of a side before matching. -/
def MarketOrders.book {isBuy : Bool} (side : MarketOrders D isBuy) (isLiquidation : Bool) :
    MarketOrderbook D :=
  .initial side.orders isBuy isLiquidation

namespace MarketOrderbook

/-- What a book of the given orders keeps through a matching run. -/
structure Inv {isBuy : Bool} (side : MarketOrders D isBuy) (b : MarketOrderbook D) :
    Prop where
  orders : b.orders.map MarketFill.order = side.orders
  bounds : ∀ e ∈ b.orders, 0 ≤ e.fillQuantity ∧ 0 ≤ e.remaining
  total : b.totalQuantity = (b.orders.map MarketFill.fillQuantity).sum

/-- What the matching loop sees of a book. -/
def view : View (MarketOrderbook D) D where
  live b := (b.pending.filter (fun e => e.remaining ≠ 0)).map
    (fun e => e.order.orderInfo.price)
  filled b := (b.orders.filter (fun e => 0 < e.fillQuantity)).map
    (fun e => e.order.orderInfo.price)
  total b := b.totalQuantity
  current b a := ∃ e rest, b.pending = e :: rest ∧ e.remaining ≠ 0 ∧
    a = ⟨e.order.orderInfo.price, e.remaining⟩

/-- What a peek leaves alone. -/
structure Kept (b b' : MarketOrderbook D) : Prop where
  totalQuantity : b'.totalQuantity = b.totalQuantity
  added : b'.counters.addedOpenNotional = b.counters.addedOpenNotional
  openInterest : b'.counters.openInterestDelta = b.counters.openInterestDelta
  fills : b'.orders.map MarketFill.core = b.orders.map MarketFill.core
  live : (view.live b').Sublist (view.live b)

theorem Kept.trans {b b' b'' : MarketOrderbook D} (h : Kept b b') (h' : Kept b' b'') :
    Kept b b'' :=
  ⟨h'.totalQuantity.trans h.totalQuantity, h'.added.trans h.added,
    h'.openInterest.trans h.openInterest, h'.fills.trans h.fills, h'.live.trans h.live⟩

variable {isBuy : Bool} {side : MarketOrders D isBuy} {b b' : MarketOrderbook D}

theorem Inv.kept (h : Inv side b) (hk : Kept b b') : Inv side b' := by
  have hof : ∀ {α : Type} (f : DerivativeMarketOrder D × D → α),
      b'.orders.map (fun e => f e.core) = b.orders.map (fun e => f e.core) := by
    intro α f
    have hmap := congrArg (List.map f) hk.fills
    rwa [List.map_map, List.map_map] at hmap
  refine ⟨(hof Prod.fst).trans h.orders, ?_, ?_⟩
  · intro e he
    have hmem : e.core ∈ b'.orders.map MarketFill.core := List.mem_map_of_mem he
    rw [hk.fills] at hmem
    obtain ⟨x, hx, hxe⟩ := List.mem_map.mp hmem
    obtain ⟨horder, hfill⟩ := Prod.mk.inj hxe
    rw [MarketFill.remaining, ← horder, ← hfill]
    exact h.bounds x hx
  · rw [hk.totalQuantity, h.total]
    exact congrArg List.sum (hof Prod.snd).symm

variable {e : MarketFill D} {rest : List (MarketFill D)}

theorem kept_pass {e' : MarketFill D} (hp : b.pending = e :: rest) (he : e'.core = e.core) :
    Kept b (b.pass e') := by
  refine ⟨rfl, rfl, rfl, ?_, ?_⟩
  · show ((b.passed ++ [e']) ++ b.pending.tail).map _ = (b.passed ++ b.pending).map _
    rw [hp]
    simp only [List.tail_cons, List.map_append, List.map_cons, he, List.append_assoc,
      List.singleton_append]
  · show (List.map _ (List.filter _ b.pending.tail)).Sublist _
    exact ((List.tail_sublist _).filter _).map _

/-! ## Peeking -/

variable {E : MatchEnv R D} {opposite : D} {c c' : MatchState R D}

/-- What `Peek` returns. -/
structure PeekResult (E : MatchEnv R D) (opposite : D) (b : MarketOrderbook D)
    (c : MatchState R D) (r : Option (PriceLevel D) × MarketOrderbook D × MatchState R D) :
    Prop where
  kept : Kept b r.2.1
  state : c.Extends E r.2.2
  none : r.1 = none → r.2.1.pending = []
  some : ∀ a, r.1 = some a → ∃ e rest, r.2.1.pending = e :: rest ∧ e.remaining ≠ 0 ∧
    (r.2.2.positionCache e.order.orderInfo.subaccountID).isSome ∧
    PassesCap E opposite r.2.1.counters r.2.2 (.market e.order) e.remaining ∧
    a = ⟨e.order.orderInfo.price, e.remaining⟩

theorem PeekResult.step {r : Option (PriceLevel D) × MarketOrderbook D × MatchState R D}
    (hk : Kept b b') (hc : c.Extends E c') (h : PeekResult E opposite b' c' r) :
    PeekResult E opposite b c r :=
  ⟨hk.trans h.kept, hc.trans h.state, h.none, h.some⟩

theorem peekLoop_spec (n : ℕ) (hn : b.pending.length ≤ n) :
    PeekResult E opposite b c (peekLoop E opposite n b c) := by
  induction n generalizing b c with
  | zero =>
    have hnil := List.eq_nil_of_length_eq_zero (Nat.le_zero.mp hn)
    exact ⟨⟨rfl, rfl, rfl, rfl, List.Sublist.refl _⟩, MatchState.Extends.refl E c,
      fun _ => hnil, fun _ ha => (nomatch ha)⟩
  | succ n ih =>
    cases hp : b.pending with
    | nil =>
      simp only [peekLoop, hp]
      exact ⟨⟨rfl, rfl, rfl, rfl, List.Sublist.refl _⟩, MatchState.Extends.refl E c,
        fun _ => hp, fun _ ha => (nomatch ha)⟩
    | cons e rest =>
      obtain ⟨hext, hadmitted⟩ := shouldSkipOrder_spec E opposite b e c
      simp only [peekLoop, hp]
      set check := b.shouldSkipOrder E opposite e c
      set b₁ := b.withCached check.cachedAddedOpenNotional
      have hkept₁ : Kept b b₁ := ⟨rfl, rfl, rfl, rfl, List.Sublist.refl _⟩
      have hp₁ : b₁.pending = e :: rest := hp
      have hlen : ∀ e', (b₁.pass e').pending.length ≤ n := by
        intro e'
        show b₁.pending.tail.length ≤ n
        rw [hp] at hn
        rw [hp₁]
        exact Nat.le_of_succ_le_succ hn
      by_cases hadm : check.admitted = true
      · rw [if_pos hadm]
        by_cases hzero : e.remaining = 0
        · rw [if_pos hzero]
          exact PeekResult.step (hkept₁.trans (kept_pass hp₁ rfl)) hext (ih (hlen e))
        · rw [if_neg hzero]
          refine ⟨hkept₁, hext, fun h => (nomatch h), ?_⟩
          intro a ha
          obtain ⟨hcached, hcap⟩ := hadmitted hadm
          exact ⟨e, rest, hp₁, hzero, hcached, hcap, (Option.some.inj ha).symm⟩
      · rw [if_neg hadm]
        have hkept₂ : Kept b₁ (b₁.pass e.skip) := kept_pass hp₁ rfl
        exact PeekResult.step (hkept₁.trans hkept₂) hext (ih (hlen e.skip))

/-- **PEEK** finds the next order that passes its checks, and changes nothing but the
    cursor. -/
theorem peek_spec : PeekResult E opposite b c (b.peek E opposite c) := peekLoop_spec _ le_rfl

/-! ## Filling -/

theorem fill_eq (hp : b.pending = e :: rest) (E : MatchEnv R D) (c : MatchState R D) (q : D) :
    b.fill E c q =
      ({ b with
         notional := b.notional + mul q e.order.orderInfo.price
         totalQuantity := b.totalQuantity + q
         pending := e.add q :: rest
         counters := (updateNotionalCapValuesAfterFill E b.counters c (.market e.order)
           (getTradeFeeRate E e.order) q).1 },
       (updateNotionalCapValuesAfterFill E b.counters c (.market e.order)
         (getTradeFeeRate E e.order) q).2) := by
  simp only [fill, hp]

theorem fill_orders (hp : b.pending = e :: rest) (E : MatchEnv R D) (c : MatchState R D)
    (q : D) :
    b.orders = b.passed ++ e :: rest ∧ (b.fill E c q).1.orders = b.passed ++ e.add q :: rest := by
  rw [fill_eq hp]
  exact ⟨by rw [orders, hp], rfl⟩

omit [DecArith D] in
theorem head_mem (hp : b.pending = e :: rest) : e ∈ b.orders := by
  rw [orders, hp]
  exact List.mem_append_right _ List.mem_cons_self

theorem remaining_add (e : MarketFill D) (q : D) : (e.add q).remaining = e.remaining - q := by
  show e.order.orderInfo.quantity - (e.fillQuantity + q) =
    e.order.orderInfo.quantity - e.fillQuantity - q
  rw [sub_sub]

variable {q : D}

theorem fill_inv (h : Inv side b) (hp : b.pending = e :: rest) (hq : 0 < q)
    (hle : q ≤ e.remaining) (E : MatchEnv R D) (c : MatchState R D) :
    Inv side (b.fill E c q).1 := by
  obtain ⟨hold, hnew⟩ := fill_orders hp E c q
  refine ⟨?_, ?_, ?_⟩
  · refine Eq.trans ?_ h.orders
    rw [hold, hnew]
    simp only [List.map_append, List.map_cons, MarketFill.add]
  · rw [hnew]
    refine forall_mem_replace b.passed (hold ▸ h.bounds)
      ⟨add_nonneg (h.bounds e (head_mem hp)).1 hq.le, ?_⟩
    rw [remaining_add]
    exact sub_nonneg.mpr hle
  · have htotal : (b.fill E c q).1.totalQuantity = b.totalQuantity + q := by
      rw [fill_eq hp]
    rw [htotal, h.total, hold, hnew]
    exact (sum_map_replace b.passed rfl).symm

theorem fill_filled (h : Inv side b) (hp : b.pending = e :: rest) (hv : c.Valid)
    (hcached : (c.positionCache e.order.orderInfo.subaccountID).isSome) (hq : 0 ≤ q)
    (E : MatchEnv R D) :
    Filled E b.counters c e.order.orderInfo.subaccountID (signedFill isBuy q)
      (b.fill E c q).1.counters (b.fill E c q).2 := by
  have hspec := updateNotionalCapValuesAfterFill_spec E b.counters hv (.market e.order)
    hcached (getTradeFeeRate E e.order) hq
  have hmem : e.order ∈ side.orders := by
    rw [← h.orders]
    exact List.mem_map_of_mem (head_mem hp)
  have hdirection : (IDerivativeOrder.market e.order).orderType.isBuy = isBuy :=
    side.direction e.order hmem
  rw [hdirection] at hspec
  rw [fill_eq hp]
  exact hspec

/-! ## The book as a side of the matching loop -/

theorem Kept.filled (h : Kept b b') : view.filled b' = view.filled b := by
  have hcore : ∀ l : List (MarketFill D),
      (l.filter (fun e => 0 < e.fillQuantity)).map (fun e => e.order.orderInfo.price) =
        ((l.map MarketFill.core).filter (fun p => 0 < p.2)).map (fun p => p.1.orderInfo.price) := by
    intro l
    rw [List.filter_map, List.map_map]
    rfl
  simp only [view, hcore, h.fills]

/-- **A MARKET BOOK IS A SIDE**, one whose prices are in no particular order. -/
theorem sideSpec (E : MatchEnv R D) (side : MarketOrders D isBuy) (i : D × MatchState R D) :
    SideSpec (Inv side) (fun _ _ => True)
      (fun b => ((b.peek E i.1 i.2).1, (b.peek E i.1 i.2).2.1))
      (fun b q => (b.fill E i.2 q).1) view View.blank where
  refl _ := trivial
  trans _ _ _ _ _ := trivial
  peek_inv b h := h.kept peek_spec.kept
  peek_other b _ := View.same_blank _ _
  peek_live b _ := peek_spec.kept.live
  peek_filled b _ := by
    rw [peek_spec.kept.filled]
    exact List.Subset.refl _
  peek_total b _ := peek_spec.kept.totalQuantity
  peek_none b _ hnone := by
    simp only [view, peek_spec.none hnone, List.filter_nil, List.map_nil]
  peek_some b a h ha := by
    obtain ⟨e, rest, hp, hlive, -, -, rfl⟩ := peek_spec.some a ha
    have hnonneg := ((h.kept peek_spec.kept).bounds e (head_mem hp)).2
    refine ⟨⟨e, rest, hp, hlive, rfl⟩, lt_of_le_of_ne hnonneg (Ne.symm hlive), ?_,
      fun _ _ => trivial⟩
    refine List.mem_map_of_mem (f := fun e : MarketFill D => e.order.orderInfo.price)
      (List.mem_filter.mpr ⟨?_, decide_eq_true hlive⟩)
    rw [hp]
    exact List.mem_cons_self
  fill_inv b a q h ha hq hle := by
    obtain ⟨e, rest, hp, -, rfl⟩ := ha
    exact fill_inv h hp hq hle E i.2
  fill_other b _ _ _ _ _ _ := View.same_blank _ _
  fill_live b a q h ha _ _ := by
    obtain ⟨e, rest, hp, hlive, -⟩ := ha
    simp only [view, fill_eq hp, hp]
    exact prices_replace_sublist [] rfl hlive
  fill_done b a q h ha _ hq := by
    obtain ⟨e, rest, hp, hlive, rfl⟩ := ha
    have hzero : (e.add q).remaining = 0 := (remaining_add e q).trans (sub_eq_zero.mpr hq.symm)
    simp only [view, fill_eq hp, hp]
    exact length_prices_replace_lt [] hlive (not_not_intro hzero)
  fill_filled b a q h ha _ _ := by
    obtain ⟨e, rest, hp, -, rfl⟩ := ha
    obtain ⟨hold, hnew⟩ := fill_orders hp E i.2 q
    simp only [view, hold, hnew]
    exact prices_replace_subset _ rfl
  fill_total b a q h ha _ _ := by
    obtain ⟨e, rest, hp, -, -⟩ := ha
    show (b.fill E i.2 q).1.totalQuantity = b.totalQuantity + q
    rw [fill_eq hp]

end MarketOrderbook

/-! ## The book among linked books -/

open MarketOrderbook

/-- A derivative market order book in the loop. -/
def marketOps (E : MatchEnv R D) : BookOps R D (MarketOrderbook D) where
  peek x b c := b.peek E x c
  fill b c q := b.fill E c q
  counters b := b.counters

variable {isBuy : Bool}

theorem marketOps_priceOrdered (E : MatchEnv R D) (side : MarketOrders D isBuy) :
    (marketOps E).PriceOrdered (MarketOrderbook.Inv side) (fun _ _ => True) MarketOrderbook.view :=
  ⟨fun _ => trivial, fun _ _ _ _ _ => trivial, fun i => sideSpec E side i⟩

/-- The quantity a book has filled for each subaccount. -/
def marketFills (b : MarketOrderbook D) : Hash → D :=
  exposures (b.orders.map (fun e => (e.order.orderInfo.subaccountID, e.fillQuantity)))

variable {b : MarketOrderbook D}

theorem marketFills_kept {b' : MarketOrderbook D} (h : Kept b b') :
    marketFills b' = marketFills b := by
  have hmap := congrArg (fun l => exposures (List.map
    (fun p : DerivativeMarketOrder D × D => (p.1.orderInfo.subaccountID, p.2)) l)) h.fills
  simp only [List.map_map] at hmap
  exact hmap

theorem marketFills_fill {e : MarketFill D} {rest : List (MarketFill D)}
    (hp : b.pending = e :: rest) (E : MatchEnv R D) (c : MatchState R D) (q : D) :
    marketFills (b.fill E c q).1 = marketFills b + Pi.single e.order.orderInfo.subaccountID q := by
  obtain ⟨hold, hnew⟩ := fill_orders hp E c q
  simp only [marketFills, hold, hnew, List.map_append, List.map_cons, exposures_append,
    exposures_cons, MarketFill.add, Pi.single_add]
  abel

theorem marketOps_positionSpec (E : MatchEnv R D) (side : MarketOrders D isBuy) :
    PositionSpec E (marketOps E) isBuy (MarketOrderbook.Inv side) marketFills
      (fun b c a => MarketOrderbook.view.current b a ∧ ∃ e rest, b.pending = e :: rest ∧
        (c.positionCache e.order.orderInfo.subaccountID).isSome) where
  peek_inv _ _ _ h := h.kept peek_spec.kept
  peek_state _ _ _ _ := peek_spec.state
  peek_fills _ _ _ _ := marketFills_kept peek_spec.kept
  peek_openInterest _ _ _ _ := peek_spec.kept.openInterest
  peek_ready x b c a h ha := by
    obtain ⟨hcurrent, hq, -⟩ := (sideSpec E side (x, c)).peek_some b a h ha
    obtain ⟨e, rest, hp, -, hcached, -, -⟩ := peek_spec.some a ha
    exact ⟨⟨hcurrent, e, rest, hp, hcached⟩, hq⟩
  ready_mono b c c' a := by
    rintro ⟨hcurrent, e, rest, hp, hcached⟩ hkeeps
    exact ⟨hcurrent, e, rest, hp, hkeeps _ hcached⟩
  fill_inv b c a q h hready hq hle := (sideSpec E side (0, c)).fill_inv b a q h hready.1 hq hle
  fill_state b c a q h hv hready hq hle := by
    obtain ⟨-, e, rest, hp, hcached⟩ := hready
    exact ⟨e.order.orderInfo.subaccountID, marketFills_fill hp E c q,
      fill_filled h hp hv hcached hq.le E⟩

/-! ## Books before matching -/

section Initial

variable {isBuy : Bool} (side : MarketOrders D isBuy) (isLiquidation : Bool)

theorem MarketOrders.orders_book : (side.book isLiquidation).orders =
    side.orders.map (fun o => ⟨o, 0, false⟩) := rfl

theorem MarketOrders.book_inv : MarketOrderbook.Inv side (side.book isLiquidation) := by
  refine ⟨?_, ?_, ?_⟩
  · rw [side.orders_book, List.map_map]
    exact List.map_id _
  · intro e he
    rw [side.orders_book] at he
    obtain ⟨o, ho, rfl⟩ := List.mem_map.mp he
    refine ⟨le_refl 0, ?_⟩
    show 0 ≤ o.orderInfo.quantity - 0
    rw [sub_zero]
    exact side.quantity_nonneg o ho
  · symm
    refine List.sum_eq_zero ?_
    intro x hx
    rw [side.orders_book, List.map_map] at hx
    obtain ⟨o, -, rfl⟩ := List.mem_map.mp hx
    rfl

theorem MarketOrders.filled_book : MarketOrderbook.view.filled (side.book isLiquidation) = [] := by
  simp only [MarketOrderbook.view, side.orders_book, List.map_eq_nil_iff,
    List.filter_eq_nil_iff, decide_eq_true_eq]
  intro e he
  obtain ⟨o, -, rfl⟩ := List.mem_map.mp he
  exact lt_irrefl 0

theorem MarketOrders.marketFills_book : marketFills (side.book isLiquidation) = 0 := by
  refine List.sum_eq_zero ?_
  intro x hx
  rw [side.orders_book, List.map_map, List.map_map] at hx
  obtain ⟨o, -, rfl⟩ := List.mem_map.mp hx
  exact Pi.single_zero _

variable {side isLiquidation}

theorem MarketOrders.book_of_some
    (h : MarketOrderbook.newDerivativeMarketOrderbook side.orders isBuy isLiquidation =
      some b) : b = side.book isLiquidation := by
  rw [MarketOrderbook.newDerivativeMarketOrderbook] at h
  split at h
  · exact nomatch h
  exact (Option.some.inj h).symm

end Initial

theorem net_marketFills {side : MarketOrders D isBuy} (h : MarketOrderbook.Inv side b) :
    net (marketFills b) = b.totalQuantity := by
  rw [marketFills, net_exposures, h.total, List.map_map]
  rfl

theorem length_live_le (b : MarketOrderbook D) :
    (MarketOrderbook.view.live b).length ≤ b.orders.length := by
  show (List.map _ (List.filter _ b.pending)).length ≤ (b.passed ++ b.pending).length
  rw [List.length_map, List.length_append]
  exact (List.length_filter_le _ _).trans (Nat.le_add_left _ _)

end ExchangeMarketBook
