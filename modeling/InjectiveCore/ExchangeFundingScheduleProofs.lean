import InjectiveCore.DecArithProofs

/-!
# Perpetual markets — the hourly fundings

Every perpetual market has its own funding interval and its next funding timestamp.
`processHourlyFundings` runs at every block; before it looks at the markets one by one, it
asks whether funding is due **for the market with the smallest identifier**, and otherwise
does nothing for any market.

- `process_of_first_due`, `process_of_first_not_due`: what a call does, as one loop or not at
  all.
- `due_markets_funded_iff`: the due markets are funded exactly if the first one is due too
  whenever some market is. Markets that were launched under different defaults break this
  (`due_market_not_funded`). No market is funded early.
-/

namespace ExchangeFunding

open DecArith

abbrev MarketID := Fin (2 ^ 256)

/-- The fields of `PerpetualMarketInfo`. Times are `int64` in the source; their sums are those
    of integers as long as they stay below `2 ^ 63` seconds. -/
structure PerpetualMarketInfo (D : Type) where
  hourlyFundingRateCap : D
  hourlyInterestRate : D
  nextFundingTimestamp : ℤ
  fundingInterval : ℤ
  /-- A market gets its interval from `DefaultFundingInterval`, which is checked. -/
  interval_pos : 0 < fundingInterval

structure PerpetualMarketFunding (D : Type) where
  cumulativeFunding : D
  cumulativePrice : D
  lastTimestamp : ℤ
  deriving DecidableEq

/-- What the stores hold about one perpetual market. -/
structure PerpetualMarket (D : Type) where
  marketID : MarketID
  info : PerpetualMarketInfo D
  funding : PerpetualMarketFunding D

/-- The perpetual markets, one under an identifier. -/
structure PerpetualMarkets (D : Type) where
  markets : List (PerpetualMarket D)
  nodup : (markets.map (·.marketID)).Nodup

variable {D : Type} [DecArith D]

/-- `capFundingRate`. -/
def capFundingRate (fundingRate fundingRateCap : D) : D :=
  if fundingRateCap < |fundingRate| then
    if fundingRate < 0 then -fundingRateCap else fundingRateCap
  else fundingRate

/-- The funding of a market that is due. -/
def PerpetualMarket.fund (m : PerpetualMarket D) (markPrice : D) : PerpetualMarket D :=
  let currFundingTimestamp := m.info.nextFundingTimestamp
  let timeInterval := m.funding.lastTimestamp + m.info.fundingInterval - currFundingTimestamp
  -- without trades in the interval there is no average premium
  let twap :=
    if timeInterval ≠ 0 then
      quo m.funding.cumulativePrice (mul (newDec timeInterval) (newDec 24))
    else newDec 0
  let fundingRate :=
    capFundingRate (twap + m.info.hourlyInterestRate) m.info.hourlyFundingRateCap
  let fundingRatePayment := mul fundingRate markPrice
  { m with
    info := { m.info with
      nextFundingTimestamp := currFundingTimestamp + m.info.fundingInterval }
    funding :=
      { cumulativeFunding := m.funding.cumulativeFunding + fundingRatePayment
        cumulativePrice := 0
        lastTimestamp := currFundingTimestamp } }

section Process

variable (blockTime : ℤ) (getDerivativeMarketWithMarkPrice : MarketID → Option D)

/-- The loop body of `ProcessHourlyFundings`. The mark price is there if the market is
    enabled and its oracle has a price. -/
def processMarket (m : PerpetualMarket D) : PerpetualMarket D :=
  if blockTime < m.info.nextFundingTimestamp then m
  else
    match getDerivativeMarketWithMarkPrice m.marketID with
    | none => m
    | some markPrice => m.fund markPrice

theorem processMarket_marketID (m : PerpetualMarket D) :
    (processMarket blockTime getDerivativeMarketWithMarkPrice m).marketID = m.marketID := by
  rw [processMarket]
  split
  · rfl
  split
  · rfl
  · rfl

/-- `GetFirstPerpetualMarketInfoState`: the store is iterated in the order of its keys. -/
def getFirstPerpetualMarketInfoState (s : PerpetualMarkets D) : Option (PerpetualMarket D) :=
  s.markets.argmin (·.marketID)

theorem nodup_process (s : PerpetualMarkets D) :
    ((s.markets.map (processMarket blockTime getDerivativeMarketWithMarkPrice)).map
      (·.marketID)).Nodup := by
  rw [List.map_map, show _ ∘ _ = fun m : PerpetualMarket D => m.marketID from
    funext (processMarket_marketID blockTime getDerivativeMarketWithMarkPrice)]
  exact s.nodup

/-- `ProcessHourlyFundings`. -/
def processHourlyFundings (s : PerpetualMarkets D) : PerpetualMarkets D :=
  match getFirstPerpetualMarketInfoState s with
  | none => s
  | some firstMarketInfoState =>
    if firstMarketInfoState.info.nextFundingTimestamp ≤ blockTime then
      ⟨s.markets.map (processMarket blockTime getDerivativeMarketWithMarkPrice),
        nodup_process blockTime getDerivativeMarketWithMarkPrice s⟩
    else s

end Process

/-- The parameters a market is launched with. -/
structure Params (D : Type) where
  defaultFundingInterval : ℤ
  defaultHourlyFundingRateCap : D
  defaultHourlyInterestRate : D
  interval_pos : 0 < defaultFundingInterval

/-- `getNextIntervalTimestamp`. -/
def getNextIntervalTimestamp (currTime interval : ℤ) : ℤ :=
  currTime.tdiv interval * interval + interval

/-- `PerpetualMarketLaunch`, what it stores if its checks pass. -/
def perpetualMarketLaunch (params : Params D) (blockTime : ℤ) (marketID : MarketID)
    (s : PerpetualMarkets D) : Option (PerpetualMarkets D) :=
  if h : marketID ∈ s.markets.map (·.marketID) then none
  else some
    { markets :=
        { marketID := marketID
          info :=
            { hourlyFundingRateCap := params.defaultHourlyFundingRateCap
              hourlyInterestRate := params.defaultHourlyInterestRate
              nextFundingTimestamp :=
                getNextIntervalTimestamp blockTime params.defaultFundingInterval
              fundingInterval := params.defaultFundingInterval
              interval_pos := params.interval_pos }
          funding := { cumulativeFunding := 0, cumulativePrice := 0,
                       lastTimestamp := blockTime } } :: s.markets
      nodup := List.nodup_cons.mpr ⟨h, s.nodup⟩ }

/-! ## One call -/

variable {blockTime : ℤ} {markPrice : MarketID → Option D} {s : PerpetualMarkets D}

/-- The first market is due: the call looks at every market. -/
def FirstDue (blockTime : ℤ) (s : PerpetualMarkets D) : Prop :=
  ∃ first ∈ getFirstPerpetualMarketInfoState s, first.info.nextFundingTimestamp ≤ blockTime

theorem process_of_first_due (h : FirstDue blockTime s) :
    (processHourlyFundings blockTime markPrice s).markets =
      s.markets.map (processMarket blockTime markPrice) := by
  obtain ⟨first, hfirst, hdue⟩ := h
  rw [processHourlyFundings, Option.mem_def.mp hfirst]
  dsimp only
  rw [if_pos hdue]

theorem process_of_first_not_due (h : ¬FirstDue blockTime s) :
    processHourlyFundings blockTime markPrice s = s := by
  rw [processHourlyFundings]
  split
  · rfl
  next first hfirst =>
  rw [if_neg fun hdue => h ⟨first, hfirst, hdue⟩]

/-- Funding was applied, and the next one lies later. -/
def Funded (m m' : PerpetualMarket D) (price : D) : Prop :=
  m' = m.fund price ∧ m.info.nextFundingTimestamp < m'.info.nextFundingTimestamp

theorem funded_fund (m : PerpetualMarket D) (price : D) : Funded m (m.fund price) price :=
  ⟨rfl, lt_add_of_pos_right _ m.info.interval_pos⟩

/-- **DUE MARKETS ARE FUNDED** exactly if the market with the smallest identifier is due
    whenever some market with a mark price is. A market that is not due stays as it is. -/
theorem due_markets_funded_iff (blockTime : ℤ) (markPrice : MarketID → Option D)
    (s : PerpetualMarkets D) :
    ((∀ m ∈ s.markets, ∀ price, m.info.nextFundingTimestamp ≤ blockTime →
        markPrice m.marketID = some price →
        ∃ m' ∈ (processHourlyFundings blockTime markPrice s).markets,
          m'.marketID = m.marketID ∧ Funded m m' price) ↔
      ∀ m ∈ s.markets, m.info.nextFundingTimestamp ≤ blockTime →
        (markPrice m.marketID).isSome → FirstDue blockTime s) ∧
    ∀ m ∈ s.markets, blockTime < m.info.nextFundingTimestamp →
      m ∈ (processHourlyFundings blockTime markPrice s).markets := by
  refine ⟨⟨?_, ?_⟩, ?_⟩
  · intro hfunded m hm hdue hprice
    obtain ⟨price, hprice⟩ := Option.isSome_iff_exists.mp hprice
    by_contra hfirst
    obtain ⟨m', hm', hid, -, hnext⟩ := hfunded m hm price hdue hprice
    -- nothing was written, so the market found is the old one
    rw [process_of_first_not_due hfirst] at hm'
    rw [List.inj_on_of_nodup_map s.nodup hm' hm hid] at hnext
    exact lt_irrefl _ hnext
  · intro hcond m hm price hdue hprice
    have hfirst := hcond m hm hdue (Option.isSome_iff_exists.mpr ⟨price, hprice⟩)
    rw [process_of_first_due hfirst]
    refine ⟨_, List.mem_map_of_mem hm, processMarket_marketID _ _ m, ?_⟩
    rw [processMarket, if_neg hdue.not_gt, hprice]
    exact funded_fund m price
  · intro m hm hearly
    by_cases hfirst : FirstDue blockTime s
    · rw [process_of_first_due hfirst]
      exact List.mem_map.mpr ⟨m, hm, if_pos hearly⟩
    · rwa [process_of_first_not_due hfirst]

/-- Market 1 is launched with an interval of two hours, market 2 later with one of one hour.
    At the end of that hour market 2 is due, and nothing happens. -/
theorem due_market_not_funded :
    ∃ s₁ s₂ : PerpetualMarkets ℚ,
      perpetualMarketLaunch ⟨7200, 1, 0, by decide⟩ 0 1 ⟨[], List.nodup_nil⟩ = some s₁ ∧
      perpetualMarketLaunch ⟨3600, 1, 0, by decide⟩ 60 2 s₁ = some s₂ ∧
      (∃ m ∈ s₂.markets, m.marketID = 2 ∧ m.info.nextFundingTimestamp = 3600) ∧
      (processHourlyFundings 3600 (fun _ => some 1) s₂).markets = s₂.markets := by
  exact ⟨_, _, rfl, rfl, ⟨_, List.mem_cons_self, rfl, rfl⟩, rfl⟩

end ExchangeFunding
