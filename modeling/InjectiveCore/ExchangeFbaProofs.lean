import InjectiveCore.DecArithProofs
import InjectiveCore.MatchLoopProofs
import InjectiveCore.TwoQueueProofs

/-!
# The frequent batch auction

`Match` runs the matching loop over a buy side and a sell side and clears everything
that matched at one price. The price is chosen by a strategy from the last matched buy
price, the last matched sell price and whatever reference is at hand: a mid price, a
mark price, or none.

- `calculate_between` for both strategies: the clearing price lies between the last
  matched sell price and the last matched buy price.
- `matchBooks_within_limits`: over price-ordered sides no filled buy is below the
  clearing price and no filled sell above it.
-/

namespace ExchangeFba

open DecArith MatchLoop TwoQueue

variable {D : Type} [DecArith D]

/-! ## Clearing price strategies -/

/-- `midpointPrice`. -/
def midpointPrice (lastBuyPrice lastSellPrice : D) : D :=
  quo (lastBuyPrice + lastSellPrice) (newDec 2)

/-- `selectPriceByReference`. -/
def selectPriceByReference (lastBuyPrice lastSellPrice referencePrice : D) : D :=
  if lastBuyPrice ≤ referencePrice then lastBuyPrice
  else if referencePrice ≤ lastSellPrice then lastSellPrice
  else referencePrice

/-- `SpotClearingPriceStrategy`. -/
structure SpotClearingPriceStrategy (D : Type) where
  midMarketPrice : Option D

/-- `SpotClearingPriceStrategy.Calculate`. -/
def SpotClearingPriceStrategy.calculate (s : SpotClearingPriceStrategy D)
    (lastBuyPrice lastSellPrice clearingQuantity : D) : D :=
  if ¬0 < clearingQuantity then 0
  else match s.midMarketPrice with
    | some midMarketPrice =>
      selectPriceByReference lastBuyPrice lastSellPrice midMarketPrice
    | none => midpointPrice lastBuyPrice lastSellPrice

/-- `DerivativeClearingPriceStrategy`. -/
structure DerivativeClearingPriceStrategy (D : Type) where
  markPrice : Option D
  midMarketPrice : Option D

/-- `calculateRegular`: the mid price clamps, the mark price decides in between. -/
def calculateRegular (markPrice : Option D) (midMarketPrice lastBuyPrice
    lastSellPrice : D) : D :=
  if lastBuyPrice ≤ midMarketPrice then lastBuyPrice
  else if midMarketPrice ≤ lastSellPrice then lastSellPrice
  else match markPrice with
    | some markPrice => selectPriceByReference lastBuyPrice lastSellPrice markPrice
    | none => midMarketPrice

/-- `DerivativeClearingPriceStrategy.Calculate`. -/
def DerivativeClearingPriceStrategy.calculate (d : DerivativeClearingPriceStrategy D)
    (lastBuyPrice lastSellPrice clearingQuantity : D) : D :=
  if ¬0 < clearingQuantity then 0
  else match d.midMarketPrice, d.markPrice with
    | none, none => midpointPrice lastBuyPrice lastSellPrice
    | none, some markPrice =>
      selectPriceByReference lastBuyPrice lastSellPrice markPrice
    | some midMarketPrice, _ =>
      calculateRegular d.markPrice midMarketPrice lastBuyPrice lastSellPrice

/-- What a strategy owes: with a positive quantity, a price between the last matched
    ones. -/
def Between (calculate : D → D → D → D) : Prop :=
  ∀ lastBuyPrice lastSellPrice clearingQuantity, 0 < clearingQuantity →
    lastSellPrice ≤ lastBuyPrice →
    lastSellPrice ≤ calculate lastBuyPrice lastSellPrice clearingQuantity ∧
      calculate lastBuyPrice lastSellPrice clearingQuantity ≤ lastBuyPrice

variable {buy sell : D}

theorem midpointPrice_between (h : sell ≤ buy) :
    sell ≤ midpointPrice buy sell ∧ midpointPrice buy sell ≤ buy :=
  quo_two_between sell buy h

theorem selectPriceByReference_between (h : sell ≤ buy) (ref : D) :
    sell ≤ selectPriceByReference buy sell ref ∧ selectPriceByReference buy sell ref ≤ buy := by
  rw [selectPriceByReference]
  by_cases hb : buy ≤ ref
  · rw [if_pos hb]; exact ⟨h, le_refl buy⟩
  · rw [if_neg hb]
    by_cases hs : ref ≤ sell
    · rw [if_pos hs]; exact ⟨le_refl sell, h⟩
    · rw [if_neg hs]; exact ⟨(not_le.mp hs).le, (not_le.mp hb).le⟩

theorem SpotClearingPriceStrategy.calculate_between (s : SpotClearingPriceStrategy D) :
    Between s.calculate := by
  intro buy sell quantity hq h
  rw [SpotClearingPriceStrategy.calculate, if_neg (not_not.mpr hq)]
  cases s.midMarketPrice with
  | none => exact midpointPrice_between h
  | some mid => exact selectPriceByReference_between h mid

theorem calculateRegular_between (h : sell ≤ buy) (mark : Option D) (mid : D) :
    sell ≤ calculateRegular mark mid buy sell ∧ calculateRegular mark mid buy sell ≤ buy := by
  rw [calculateRegular.eq_def]
  by_cases hb : buy ≤ mid
  · rw [if_pos hb]; exact ⟨h, le_refl buy⟩
  · rw [if_neg hb]
    by_cases hs : mid ≤ sell
    · rw [if_pos hs]; exact ⟨le_refl sell, h⟩
    · rw [if_neg hs]
      cases mark with
      | none => exact ⟨(not_le.mp hs).le, (not_le.mp hb).le⟩
      | some mark => exact selectPriceByReference_between h mark

theorem DerivativeClearingPriceStrategy.calculate_between
    (d : DerivativeClearingPriceStrategy D) : Between d.calculate := by
  intro buy sell quantity hq h
  rw [DerivativeClearingPriceStrategy.calculate, if_neg (not_not.mpr hq)]
  cases d.midMarketPrice with
  | none =>
    cases d.markPrice with
    | none => exact midpointPrice_between h
    | some mark => exact selectPriceByReference_between h mark
  | some mid => exact calculateRegular_between h d.markPrice mid

/-! ## Matching -/

/-- `MatchResult`. -/
structure MatchResult (D : Type) where
  lastBuyPrice : D
  lastSellPrice : D
  clearingQuantity : D
  clearingPrice : D
  deriving DecidableEq, Repr

/-- `EmptyMatchResult`. -/
def emptyMatchResult : MatchResult D :=
  { lastBuyPrice := 0, lastSellPrice := 0, clearingQuantity := 0, clearingPrice := 0 }

/-- The loop goes on unless `unitSpread` is positive. -/
def pricesCross (buyPrice sellPrice : D) : Bool := decide ¬0 < sellPrice - buyPrice

variable {buyPrice sellPrice : D}

theorem pricesCross_eq_true : pricesCross buyPrice sellPrice = true ↔ sellPrice ≤ buyPrice := by
  rw [pricesCross, decide_eq_true_iff, not_lt, sub_nonpos]

theorem pricesCross_eq_false : pricesCross buyPrice sellPrice = false ↔ buyPrice < sellPrice := by
  rw [← Bool.not_eq_true, pricesCross_eq_true, not_le]

variable {σ : Type}

/-- `Match`: the buy side is peeked and filled first. `none` when the fuel runs out. -/
def matchBooks (M : Sides σ D) (sellQuantityFilled : σ → D) (calculate : D → D → D → D)
    (fuel : ℕ) (s : σ) : Option (MatchResult D × σ) :=
  (M.run fuel s).map fun r =>
    let lastBuyPrice := (r.1.getLast?.map Trade.firstPrice).getD 0
    let lastSellPrice := (r.1.getLast?.map Trade.secondPrice).getD 0
    let clearingQuantity := sellQuantityFilled r.2
    ({ lastBuyPrice := lastBuyPrice
       lastSellPrice := lastSellPrice
       clearingQuantity := clearingQuantity
       clearingPrice := calculate lastBuyPrice lastSellPrice clearingQuantity }, r.2)

variable {M : Sides σ D} {calculate : D → D → D → D} {fuel : ℕ} {s s' : σ}
  {result : MatchResult D}

theorem matchBooks_some {sellQuantityFilled : σ → D}
    (h : matchBooks M sellQuantityFilled calculate fuel s = some (result, s')) :
    ∃ ts, M.run fuel s = some (ts, s') ∧
      result.lastBuyPrice = (ts.getLast?.map Trade.firstPrice).getD 0 ∧
      result.lastSellPrice = (ts.getLast?.map Trade.secondPrice).getD 0 ∧
      result.clearingQuantity = sellQuantityFilled s' ∧
      result.clearingPrice = calculate result.lastBuyPrice result.lastSellPrice
        result.clearingQuantity := by
  obtain ⟨⟨ts, s₁⟩, hrun, heq⟩ := Option.map_eq_some_iff.mp h
  cases heq
  exact ⟨ts, hrun, rfl, rfl, rfl, rfl⟩

theorem trades_eq_nil {ts : List (Trade D)} (hpos : ∀ t ∈ ts, 0 < t.quantity)
    (hsum : ¬0 < (ts.map Trade.quantity).sum) : ts = [] := by
  cases ts with
  | nil => rfl
  | cons t rest =>
    refine absurd ?_ hsum
    rw [List.map_cons, List.sum_cons]
    have hrest : 0 ≤ (rest.map Trade.quantity).sum := by
      refine List.sum_nonneg ?_
      intro q hq
      obtain ⟨u, hu, rfl⟩ := List.mem_map.mp hq
      exact (hpos u (List.mem_cons_of_mem _ hu)).le
    exact lt_of_lt_of_le (hpos t List.mem_cons_self) (le_add_of_nonneg_right hrest)

theorem inPriceOrder_last_le {prices : List D} (h : InPriceOrder true prices) {last : D}
    (hlast : last ∈ prices.getLast?) : ∀ p ∈ prices, last ≤ p := by
  refine last_noBetter ?_ ?_ hlast
  · exact fun p => le_refl p
  · exact h.imp not_lt.mp

theorem inPriceOrder_le_last {prices : List D} (h : InPriceOrder false prices) {last : D}
    (hlast : last ∈ prices.getLast?) : ∀ p ∈ prices, p ≤ last := by
  refine @last_noBetter D (fun p p' => p' ≤ p) prices ?_ ?_ last hlast
  · exact fun p => le_refl p
  · exact h.imp not_lt.mp

/-- **WITHIN LIMITS**: if nothing matched then nothing is filled. If anything matched then the
    clearing price lies between the last matched prices, and where the matched prices of a
    side came in its order no fill of that side is on the wrong side of it. They come in
    order if the side is read so. -/
theorem matchBooks_within_limits {Inv : σ → Prop} {buys sells : View σ D} {ob os : Prop}
    (hbuy : SideSpec Inv (NoBetter ob true) M.peekFirst M.fillFirst buys sells)
    (hsell : SideSpec Inv (NoBetter os false) M.peekSecond M.fillSecond sells buys)
    (hcrosses : M.crosses = pricesCross) (hcalc : Between calculate) (hI : Inv s)
    (hb : buys.filled s = []) (hs : sells.filled s = []) (ht : sells.total s = 0)
    (h : matchBooks M sells.total calculate fuel s = some (result, s')) :
    (¬0 < result.clearingQuantity → buys.filled s' = [] ∧ sells.filled s' = []) ∧
      (0 < result.clearingQuantity → result.lastSellPrice ∈ sells.live s ∧
        result.lastSellPrice ≤ result.clearingPrice ∧
        result.clearingPrice ≤ result.lastBuyPrice ∧
        (InPriceOrder true ((M.trades fuel s).map Trade.firstPrice) →
          ∀ p ∈ buys.filled s', result.clearingPrice ≤ p) ∧
        (InPriceOrder false ((M.trades fuel s).map Trade.secondPrice) →
          ∀ p ∈ sells.filled s', p ≤ result.clearingPrice)) ∧
      (ob → InPriceOrder true ((M.trades fuel s).map Trade.firstPrice)) ∧
      (os → InPriceOrder false ((M.trades fuel s).map Trade.secondPrice)) := by
  obtain ⟨ts, hrun, hlb, hls, hcq, hcp⟩ := matchBooks_some h
  obtain ⟨-, -, htotal, hsepb, hseps, htrades, -⟩ := run_spec hbuy hsell hI hb hs hrun
  rw [ht, zero_add] at htotal
  rw [Sides.trades_eq hrun]
  refine ⟨?_, ?_, inPriceOrder_of_noBetter hsepb.inOrder, inPriceOrder_of_noBetter hseps.inOrder⟩
  · intro hno
    rw [hcq, htotal] at hno
    have hnil := trades_eq_nil (fun t htm => (htrades t htm).2) hno
    rw [hnil] at hsepb hseps
    exact ⟨List.subset_nil.mp hsepb.filled, List.subset_nil.mp hseps.filled⟩
  · intro hpos
    cases hlast : ts.getLast? with
    | none =>
      rw [List.getLast?_eq_none_iff] at hlast
      rw [hcq, htotal, hlast] at hpos
      exact absurd hpos (lt_irrefl 0)
    | some t =>
      rw [hlast] at hlb hls
      change result.lastBuyPrice = t.firstPrice at hlb
      change result.lastSellPrice = t.secondPrice at hls
      have hcross := (htrades t (List.mem_of_getLast? hlast)).1
      rw [hcrosses, pricesCross_eq_true, ← hlb, ← hls] at hcross
      obtain ⟨hlow, hhigh⟩ := hcalc _ _ _ hpos hcross
      rw [← hcp] at hlow hhigh
      have hlast₂ : t.secondPrice ∈ ts.map Trade.secondPrice :=
        List.mem_map_of_mem (List.mem_of_getLast? hlast)
      refine ⟨hls ▸ hseps.offered hlast₂, hlow, hhigh, ?_, ?_⟩
      · intro ho p hp
        have hle : t.firstPrice ≤ p :=
          inPriceOrder_last_le ho (by rw [List.getLast?_map, hlast]; rfl) p (hsepb.filled hp)
        exact (hhigh.trans hlb.le).trans hle
      · intro ho p hp
        have hle : p ≤ t.secondPrice :=
          inPriceOrder_le_last ho (by rw [List.getLast?_map, hlast]; rfl) p (hseps.filled hp)
        exact hle.trans (hls.ge.trans hlow)

end ExchangeFba
