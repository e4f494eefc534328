import InjectiveCore.ExchangeDerivativeFillProofs
import InjectiveCore.GrossExposureProofs

/-!
# What derivative order books share while they match

The order books of a derivative market work on the same positions. `positionStates`
holds a subaccount's position as settlement will find it; `positionCache` holds a copy
to which fills are applied as they are matched, so that the admission checks of later
orders see them. Both are filled from the store when an order of a subaccount first
comes up.

Read as signed exposures, the two are

- `settledQuantity`, which matching never changes (`Extends.settled`), and
- `matchedQuantity`, to which every fill adds its signed quantity; with it the open
  interest counter moves by the growth of the position and the added notional by that
  growth at the mark price (`updateNotionalCapValuesAfterFill_spec`).

The risk engine is a parameter with a state of its own: nothing is assumed about which
orders it turns away.
-/

namespace ExchangeMatchState

open DecArith GrossExposure ExchangePosition ExchangeFees ExchangeDerivativeFill

variable {R D : Type} [DecArith D]

/-- `IDerivativeOrder`. -/
inductive IDerivativeOrder (D : Type) where
  | limit (order : DerivativeLimitOrder D)
  | market (order : DerivativeMarketOrder D)
  deriving DecidableEq, Repr

namespace IDerivativeOrder

/-- The order's common data. -/
def orderInfo : IDerivativeOrder D → OrderInfo D
  | limit order => order.orderInfo
  | market order => order.orderInfo

/-- The order's type. -/
def orderType : IDerivativeOrder D → ExchangeFees.OrderType
  | limit order => order.orderType
  | market order => order.orderType

/-- The order's margin. -/
def margin : IDerivativeOrder D → D
  | limit order => order.margin
  | market order => order.margin

/-- The subaccount that placed the order. -/
def subaccountID (order : IDerivativeOrder D) : Hash := order.orderInfo.subaccountID

/-- The hash under which the order is stored. -/
def orderHash : IDerivativeOrder D → Hash
  | limit order => order.orderHash
  | market order => order.orderHash

/-- `GetFillable`: nothing of a market order is filled before it is executed. -/
def getFillable : IDerivativeOrder D → D
  | limit order => order.fillable
  | market order => order.orderInfo.quantity

/-- Whether the order is a limit order. -/
def isLimit : IDerivativeOrder D → Bool
  | limit _ => true
  | market _ => false

end IDerivativeOrder

/-- The risk engine as the order books call it, `R` being what it remembers between
    calls. The checks answer whether they fail. -/
structure RiskEngine (R D : Type) where
  checkCrossMarginEmergencyPause : R → Hash → Bool
  decrementLastLookOLR : R → IDerivativeOrder D → D → R
  checkValidPositionToReduce : R → Hash → Position D → D → Bool → D → D → Bool
  shouldSkipDerivativeOrderForMarginRequirement : R → IDerivativeOrder D → D → Bool × R

/-- What matching reads of the chain state. Stored positions have no negative quantity
    and the oracles accept no negative price. -/
structure MatchEnv (R D : Type) [DecArith D] where
  fill : FillEnv D
  markPrice : Option D
  currentOpenNotional : D
  atomicExecutionFeeMultiplier : D
  riskEngine : RiskEngine R D
  quantity_nonneg : ∀ s p, fill.getPosition s = some p → 0 ≤ p.quantity
  markPrice_nonneg : 0 ≤ markPrice.getD 0

/-- The mark price of an order book; without one it is zero, and so is every notional. -/
def MatchEnv.mark (E : MatchEnv R D) : D := E.markPrice.getD 0

/-- The maps the order books of a market share, and the risk engine's memory. -/
structure MatchState (R D : Type) where
  positionStates : PositionStates D
  positionCache : PositionStates D
  risk : R

/-- `NewPositionStates` and an empty position cache. -/
def MatchState.initial (risk : R) : MatchState R D :=
  { positionStates := fun _ => none, positionCache := fun _ => none, risk := risk }

/-- `checkAndInitializePosition`, and `getInitializedPositionState` of the market order
    book. -/
def checkAndInitializePosition (E : MatchEnv R D) (isBuy : Bool) (c : MatchState R D)
    (subaccountID : Hash) : Position D × MatchState R D :=
  let stored := (E.fill.getPosition subaccountID).getD
    (newPosition isBuy (E.fill.funding.map (·.cumulativeFunding)))
  let state := (c.positionStates subaccountID).getD (stored.applyFunding E.fill.funding)
  let position := (c.positionCache subaccountID).getD state
  (position,
    { c with
      positionStates := Function.update c.positionStates subaccountID (some state)
      positionCache := Function.update c.positionCache subaccountID (some position) })

/-! ## The signed reading of the maps -/

/-- `getSignedPositionQuantity`, zero without a position. -/
def signedQuantity : Option (Position D) → D
  | none => 0
  | some p => p.getSignedPositionQuantity

/-- The signed quantities of a map of positions, `base` where it has none. -/
def readQuantity (positions : PositionStates D) (base : Hash → D) : Hash → D :=
  fun s => match positions s with
    | some p => p.getSignedPositionQuantity
    | none => base s

theorem readQuantity_update (positions : PositionStates D) (base : Hash → D) (s : Hash)
    (p : Position D) :
    readQuantity (Function.update positions s (some p)) base =
      Function.update (readQuantity positions base) s p.getSignedPositionQuantity := by
  funext h
  by_cases hh : h = s
  · subst hh
    rw [Function.update_self, readQuantity, Function.update_self]
  · rw [Function.update_of_ne hh, readQuantity, Function.update_of_ne hh]
    rfl

/-- A map without negative quantities. -/
def NonnegQuantities (positions : PositionStates D) : Prop :=
  ∀ s p, positions s = some p → 0 ≤ p.quantity

theorem NonnegQuantities.empty : NonnegQuantities (fun _ => none : PositionStates D) := by
  intro s p hp
  exact nomatch hp

theorem NonnegQuantities.update {positions : PositionStates D}
    (h : NonnegQuantities positions) (s : Hash) {p : Position D} (hp : 0 ≤ p.quantity) :
    NonnegQuantities (Function.update positions s (some p)) := by
  intro k q hq
  by_cases hk : k = s
  · subst hk
    rw [Function.update_self, Option.some.injEq] at hq
    exact hq ▸ hp
  · rw [Function.update_of_ne hk] at hq
    exact h k q hq

/-- The signed quantities the batch starts from. -/
def MatchEnv.storedQuantity (E : MatchEnv R D) : Hash → D :=
  fun s => signedQuantity (E.fill.getPosition s)

/-- The signed quantities as settlement finds them. -/
def MatchState.settledQuantity (E : MatchEnv R D) (c : MatchState R D) : Hash → D :=
  readQuantity c.positionStates E.storedQuantity

/-- The signed quantities after the fills matched so far. -/
def MatchState.matchedQuantity (E : MatchEnv R D) (c : MatchState R D) : Hash → D :=
  readQuantity c.positionCache (c.settledQuantity E)

variable {c : MatchState R D}

theorem signedQuantity_cache (E : MatchEnv R D) {s : Hash} (h : (c.positionCache s).isSome) :
    signedQuantity (c.positionCache s) = c.matchedQuantity E s := by
  obtain ⟨p, hp⟩ := Option.isSome_iff_exists.mp h
  rw [MatchState.matchedQuantity, readQuantity, hp]
  rfl

/-- No position of the maps has a negative quantity. -/
structure MatchState.Valid (c : MatchState R D) : Prop where
  states : NonnegQuantities c.positionStates
  cache : NonnegQuantities c.positionCache

theorem MatchState.initial_valid (risk : R) : (MatchState.initial risk : MatchState R D).Valid :=
  ⟨.empty, .empty⟩

/-- Positions were looked up, and nothing else happened to them. -/
structure MatchState.Extends (E : MatchEnv R D) (c c' : MatchState R D) : Prop where
  valid : c.Valid → c'.Valid
  cache : ∀ s p, c.positionCache s = some p → c'.positionCache s = some p
  settled : c'.settledQuantity E = c.settledQuantity E
  matched : c'.matchedQuantity E = c.matchedQuantity E

/-- Every cached position stays cached. -/
def MatchState.KeepsCache (c c' : MatchState R D) : Prop :=
  ∀ s, (c.positionCache s).isSome → (c'.positionCache s).isSome

variable {E : MatchEnv R D} {c' : MatchState R D}

theorem MatchState.Extends.keepsCache (h : c.Extends E c') : c.KeepsCache c' := by
  intro s hs
  obtain ⟨p, hp⟩ := Option.isSome_iff_exists.mp hs
  rw [h.cache s p hp]
  rfl

theorem MatchState.Extends.refl (E : MatchEnv R D) (c : MatchState R D) :
    c.Extends E c :=
  ⟨id, fun _ _ h => h, rfl, rfl⟩

theorem MatchState.Extends.trans {c'' : MatchState R D} (h : c.Extends E c')
    (h' : c'.Extends E c'') : c.Extends E c'' :=
  ⟨fun hv => h'.valid (h.valid hv), fun s p hp => h'.cache s p (h.cache s p hp),
    h'.settled.trans h.settled, h'.matched.trans h.matched⟩

theorem MatchState.Extends.withRisk (h : c.Extends E c') (risk : R) :
    c.Extends E { c' with risk := risk } :=
  ⟨fun hv => ⟨(h.valid hv).states, (h.valid hv).cache⟩, h.cache, h.settled, h.matched⟩

theorem stored_signed (E : MatchEnv R D) (isBuy : Bool) (s : Hash) :
    let p := ((E.fill.getPosition s).getD
      (newPosition isBuy (E.fill.funding.map (·.cumulativeFunding)))).applyFunding E.fill.funding
    p.getSignedPositionQuantity = E.storedQuantity s ∧ 0 ≤ p.quantity := by
  intro p
  show p.getSignedPositionQuantity = signedQuantity (E.fill.getPosition s) ∧ 0 ≤ p.quantity
  rw [signed_applyFunding, applyFunding_quantity]
  cases hp : E.fill.getPosition s with
  | some stored => exact ⟨rfl, E.quantity_nonneg s stored hp⟩
  | none =>
    refine ⟨?_, le_refl 0⟩
    cases isBuy
    · exact neg_zero
    · rfl

/-- **LOOKING UP A POSITION** only extends the maps, and the position is then cached. -/
theorem checkAndInitializePosition_spec (E : MatchEnv R D) (isBuy : Bool)
    (c : MatchState R D) (s : Hash) :
    c.Extends E (checkAndInitializePosition E isBuy c s).2 ∧
      (checkAndInitializePosition E isBuy c s).2.positionCache s =
        some (checkAndInitializePosition E isBuy c s).1 := by
  obtain ⟨hsigned, hnonneg⟩ := stored_signed E isBuy s
  simp only [checkAndInitializePosition]
  set stored := ((E.fill.getPosition s).getD
    (newPosition isBuy (E.fill.funding.map (·.cumulativeFunding)))).applyFunding E.fill.funding
  -- the entry of the subaccount in each map reads as before
  have hstate : ((c.positionStates s).getD stored).getSignedPositionQuantity =
      c.settledQuantity E s := by
    rw [MatchState.settledQuantity, readQuantity]
    cases c.positionStates s with
    | some p => rfl
    | none => exact hsigned
  have hcache : ((c.positionCache s).getD
      ((c.positionStates s).getD stored)).getSignedPositionQuantity = c.matchedQuantity E s := by
    rw [MatchState.matchedQuantity, readQuantity]
    cases c.positionCache s with
    | some p => rfl
    | none => exact hstate
  have hsettled : readQuantity (Function.update c.positionStates s
      (some ((c.positionStates s).getD stored))) E.storedQuantity = c.settledQuantity E := by
    rw [readQuantity_update, hstate]
    exact Function.update_eq_self s _
  refine ⟨⟨?_, ?_, hsettled, ?_⟩, Function.update_self _ _ _⟩
  · intro hv
    have hs : 0 ≤ ((c.positionStates s).getD stored).quantity := by
      cases hp : c.positionStates s with
      | some p => exact hv.states s p hp
      | none => exact hnonneg
    refine ⟨hv.states.update s hs, hv.cache.update s ?_⟩
    cases hp : c.positionCache s with
    | some p => exact hv.cache s p hp
    | none => exact hs
  · intro h p hp
    show Function.update c.positionCache s _ h = some p
    by_cases hh : h = s
    · subst hh
      rw [Function.update_self, hp, Option.getD_some]
    · rw [Function.update_of_ne hh]
      exact hp
  · show readQuantity (Function.update c.positionCache s _) (readQuantity _ _) = _
    rw [hsettled, readQuantity_update, hcache]
    exact Function.update_eq_self s _

/-! ## The open notional cap -/

/-- `GetValuesForNotionalCapChecks`: the notional delta, the quantity delta and the new
    position quantity. -/
def getValuesForNotionalCapChecks (orderType : ExchangeFees.OrderType)
    (orderQuantity markPrice positionQuantity : D) : D × D × D :=
  let isClosingPosition :=
    positionQuantity ≠ 0 ∧ orderType.isBuy = decide (positionQuantity < 0)
  let newPositionQuantity :=
    if orderType.isBuy then positionQuantity + orderQuantity
    else positionQuantity - orderQuantity
  let quantityDelta :=
    if isClosingPosition then
      -- flipping through zero
      if |positionQuantity| < orderQuantity then
        |newPositionQuantity| - |positionQuantity|
      else -orderQuantity
    else orderQuantity
  (mul quantityDelta markPrice, quantityDelta, newPositionQuantity)

/-- `DoesBreachOpenNotionalCap`: whether the order is turned away, and its notional
    delta. Orders that reduce open interest are always accepted. -/
def doesBreachOpenNotionalCap (orderType : ExchangeFees.OrderType)
    (orderQuantity markPrice totalOpenNotional positionQuantity : D)
    (openNotionalCap : OpenNotionalCap D) : Bool × D :=
  match openNotionalCap with
  | .uncapped => (false, 0)
  | .capped value =>
    let notionalDelta := (getValuesForNotionalCapChecks orderType orderQuantity markPrice
      positionQuantity).1
    if notionalDelta < 0 then (false, notionalDelta)
    else (decide (value < totalOpenNotional + notionalDelta), notionalDelta)

/-- The signed quantity of a fill. -/
def signedFill (isBuy : Bool) (quantity : D) : D := if isBuy then quantity else -quantity

variable {q : D}

/-- The quantity delta is the growth of the position, whichever branch computes it. -/
theorem quantityDelta_eq_growth (orderType : ExchangeFees.OrderType) (hq : 0 ≤ q) (mark p : D) :
    (getValuesForNotionalCapChecks orderType q mark p).2.1 =
      growth p (signedFill orderType.isBuy q) := by
  simp only [getValuesForNotionalCapChecks, growth, signedFill]
  cases orderType.isBuy
  · simp only [Bool.false_eq_true, if_false, ← sub_eq_add_neg]
    by_cases hp : 0 ≤ p
    · rw [abs_of_nonneg hp]
      by_cases h0 : p = 0
      · subst h0
        simp [abs_of_nonneg hq]
      · have hclose : p ≠ 0 ∧ false = decide (p < 0) := ⟨h0, by simp [hp]⟩
        rw [if_pos hclose]
        by_cases hflip : p < q
        · rw [if_pos hflip]
        · rw [if_neg hflip, abs_of_nonneg (sub_nonneg.mpr (not_lt.mp hflip))]
          abel
    · have hneg : p < 0 := not_le.mp hp
      have hopen : ¬(p ≠ 0 ∧ false = decide (p < 0)) := by simp [hneg]
      have hsum : p - q < 0 := by grind
      rw [if_neg hopen, abs_of_neg hneg, abs_of_neg hsum]
      abel
  · simp only [if_true]
    by_cases hp : p < 0
    · have hclose : p ≠ 0 ∧ true = decide (p < 0) := ⟨hp.ne, by simp [hp]⟩
      rw [if_pos hclose, abs_of_neg hp]
      by_cases hflip : -p < q
      · rw [if_pos hflip]
      · have hsum : p + q ≤ 0 := by grind
        rw [if_neg hflip, abs_of_nonpos hsum]
        abel
    · have hnn : 0 ≤ p := not_lt.mp hp
      have hopen : ¬(p ≠ 0 ∧ true = decide (p < 0)) := by simp [hnn]
      rw [if_neg hopen, abs_of_nonneg hnn, abs_of_nonneg (add_nonneg hnn hq)]
      abel

theorem notionalDelta_eq_growth (orderType : ExchangeFees.OrderType) (hq : 0 ≤ q) (mark p : D) :
    (getValuesForNotionalCapChecks orderType q mark p).1 =
      mul (growth p (signedFill orderType.isBuy q)) mark := by
  rw [← quantityDelta_eq_growth orderType hq mark p]
  rfl

/-- The counters an order book keeps for the cap: what its fills have added, what its
    current order would add, and the open interest delta. -/
structure CapCounters (D : Type) where
  addedOpenNotional : D
  cachedAddedOpenNotional : D
  openInterestDelta : D
  deriving DecidableEq, Repr

/-- The counters of a new order book. -/
def CapCounters.initial : CapCounters D :=
  { addedOpenNotional := 0, cachedAddedOpenNotional := 0, openInterestDelta := 0 }

/-- `GetAddedOpenNotional`. -/
def CapCounters.getAddedOpenNotional (n : CapCounters D) : D :=
  n.addedOpenNotional + n.cachedAddedOpenNotional

/-- `getTotalOpenNotional`; `opposite` is `GetAddedOpenNotional` of the other side. -/
def CapCounters.getTotalOpenNotional (n : CapCounters D) (E : MatchEnv R D)
    (opposite : D) : D :=
  E.currentOpenNotional + n.addedOpenNotional + opposite

/-- `updateNotionalCapValuesAfterFill`, the same in both kinds of order book but for the
    fee rate. The cached position is filled at the order's own price, since the clearing
    price is not known yet. -/
def updateNotionalCapValuesAfterFill (E : MatchEnv R D) (n : CapCounters D)
    (c : MatchState R D) (order : IDerivativeOrder D) (tradeFeeRate fillQuantity : D) :
    CapCounters D × MatchState R D :=
  let values := getValuesForNotionalCapChecks order.orderType fillQuantity E.mark
    (signedQuantity (c.positionCache order.subaccountID))
  let delta : PositionDelta D :=
    { isLong := order.orderType.isBuy
      executionQuantity := fillQuantity
      executionMargin := quo (mul order.margin fillQuantity) order.orderInfo.quantity
      executionPrice := order.orderInfo.price }
  ({ addedOpenNotional := n.addedOpenNotional + values.1
     cachedAddedOpenNotional := 0
     openInterestDelta := n.openInterestDelta + values.2.1 },
   match c.positionCache order.subaccountID with
   | none => c
   | some p =>
     { c with
       positionCache := Function.update c.positionCache order.subaccountID
         (some (p.applyPositionDelta delta tradeFeeRate).position) })

/-- What a fill does to the counters and to the cached positions. -/
structure Filled (E : MatchEnv R D) (n : CapCounters D) (c : MatchState R D) (s : Hash)
    (x : D) (n' : CapCounters D) (c' : MatchState R D) : Prop where
  openInterest : n'.openInterestDelta =
    n.openInterestDelta + growth (c.matchedQuantity E s) x
  added : n'.addedOpenNotional =
    n.addedOpenNotional + mul (growth (c.matchedQuantity E s) x) E.mark
  cached : n'.cachedAddedOpenNotional = 0
  valid : c'.Valid
  cache : c.KeepsCache c'
  settled : c'.settledQuantity E = c.settledQuantity E
  matched : c'.matchedQuantity E = c.matchedQuantity E + Pi.single s x

/-- **A FILL** adds its signed quantity to the matched position of its subaccount, and
    the counters follow the growth of that position. -/
theorem updateNotionalCapValuesAfterFill_spec (E : MatchEnv R D) (n : CapCounters D)
    (hv : c.Valid) (order : IDerivativeOrder D)
    (hc : (c.positionCache order.subaccountID).isSome) (rate : D) (hq : 0 ≤ q) :
    Filled E n c order.subaccountID (signedFill order.orderType.isBuy q)
      (updateNotionalCapValuesAfterFill E n c order rate q).1
      (updateNotionalCapValuesAfterFill E n c order rate q).2 := by
  obtain ⟨p, hp⟩ := Option.isSome_iff_exists.mp hc
  have hmatched : c.matchedQuantity E order.subaccountID = p.getSignedPositionQuantity := by
    rw [← signedQuantity_cache E hc, hp]
    rfl
  obtain ⟨hsigned, hnonneg⟩ := signed_applyPositionDelta p
    { isLong := order.orderType.isBuy, executionQuantity := q
      executionMargin := quo (mul order.margin q) order.orderInfo.quantity
      executionPrice := order.orderInfo.price } rate (hv.cache _ p hp) hq
  simp only [updateNotionalCapValuesAfterFill, hp, signedQuantity]
  refine ⟨?_, ?_, rfl, ⟨hv.states, hv.cache.update _ hnonneg⟩, ?_, rfl, ?_⟩
  · rw [hmatched, quantityDelta_eq_growth _ hq]
  · rw [hmatched, notionalDelta_eq_growth _ hq]
  · intro h hs
    show (Function.update c.positionCache order.subaccountID _ h).isSome = true
    by_cases hh : h = order.subaccountID
    · rw [hh, Function.update_self]
      rfl
    · rw [Function.update_of_ne hh]
      exact hs
  · show readQuantity (Function.update c.positionCache _ _) (c.settledQuantity E) = _
    rw [readQuantity_update, hsigned, ← hmatched]
    exact update_add_single _ _ _

end ExchangeMatchState
