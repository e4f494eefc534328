import InjectiveCore.DecArithProofs

/-!
# Statistics of the trades of a market

Trades are stored with the time of their block. For a volatility query they are
grouped: a trade less than the grouping interval after the start of the last group joins
it, at the volume-weighted price. The statistics are taken of both lists: the mean of the
groups, the extremes and the median of the trades, and a price weighted with time, the
price of each group counting for the time since the group before.

Grouping loses no volume, so the mean is that of the trades, between the lowest and the
highest price. The weighted price is divided by the time between the first and the last
trade. Where that is zero the division panics, and the time after the start of the last
group counts in the divisor but not in the sum. `twap_between_iff` says for which times of
the trades this does no harm, whatever their prices.
-/

namespace ExchangeTradeStatistics

open DecArith

/-- `TradeRecord`: the trades of a market in one block. -/
structure TradeRecord (D : Type) where
  timestamp : ℤ
  price : D
  quantity : D
  deriving DecidableEq

/-- `MetadataStatistics`. -/
structure MetadataStatistics (D : Type) where
  groupCount : ℕ
  recordsSampleSize : ℕ
  mean : D
  twap : D
  firstTimestamp : ℤ
  lastTimestamp : ℤ
  minPrice : D
  maxPrice : D
  medianPrice : D
  deriving DecidableEq

section Model

variable {D : Type} [DecArith D]

/-- `Quo`, with `none` for the panic on a zero divisor. -/
def divide (x y : D) : Option D := if y = 0 then none else some (quo x y)

/-- A trade joins the last group, at the volume-weighted price. -/
def joined (last r : TradeRecord D) : Option (TradeRecord D) := do
  let groupedQuantity := last.quantity + r.quantity
  let price ← divide (mul last.price last.quantity + mul r.price r.quantity) groupedQuantity
  return ⟨last.timestamp, price, groupedQuantity⟩

/-- The loop of `GetRecordsGroupedBy` once there is a group: only the last one changes. -/
def groupFrom (seconds : ℤ) : TradeRecord D → List (TradeRecord D) →
    Option (List (TradeRecord D))
  | last, [] => some [last]
  | last, r :: rs =>
    if r.timestamp - last.timestamp < seconds then
      (joined last r).bind (fun group => groupFrom seconds group rs)
    else (groupFrom seconds r rs).map (last :: ·)

/-- `GetRecordsGroupedBy`; `none` is the panic of a division. -/
def getRecordsGroupedBy (tradeRecords : List (TradeRecord D)) (seconds : ℤ) :
    Option (List (TradeRecord D)) :=
  match tradeRecords with
  | [] => some []
  | r :: rs => groupFrom seconds r rs

/-- The sum of price times quantity. -/
def notional (l : List (TradeRecord D)) : D := (l.map (fun r => mul r.price r.quantity)).sum

def volume (l : List (TradeRecord D)) : D := (l.map (·.quantity)).sum

/-- The sum of price times the time since the record before. -/
def twapSum : List (TradeRecord D) → D
  | a :: b :: l => mul b.price (newDec (b.timestamp - a.timestamp)) + twapSum (b :: l)
  | _ => 0

/-- `sort.SliceStable` by price. -/
def sortedByPrice (l : List (TradeRecord D)) : List (TradeRecord D) :=
  l.insertionSort (fun a b => a.price ≤ b.price)

/-- The median of records sorted by price. -/
def medianPrice (recordsCopy : List (TradeRecord D)) : Option D := do
  let count := recordsCopy.length
  let upper ← recordsCopy[count / 2]?
  if count % 2 = 0 then
    let lower ← recordsCopy[count / 2 - 1]?
    divide (upper.price + lower.price) (newDec 2)
  else return upper.price

/-- `calculateStatistics`: the inner `none` is its nil, the outer one a panic. -/
def calculateStatistics (tradeRecords groupedTradeRecords : List (TradeRecord D)) :
    Option (Option (MetadataStatistics D)) := do
  let count := tradeRecords.length
  if count = 0 then return none
  let recordsCopy := sortedByPrice tradeRecords
  let median ← medianPrice recordsCopy
  let mean ← divide (notional groupedTradeRecords) (volume groupedTradeRecords)
  let lowest ← recordsCopy.head?
  let highest ← recordsCopy.getLast?
  let first ← tradeRecords.head?
  let last ← tradeRecords.getLast?
  let twap ← if 1 < count then
      divide (twapSum groupedTradeRecords) (newDec (last.timestamp - first.timestamp))
    else some 0
  return some ⟨groupedTradeRecords.length, count, mean, twap, first.timestamp, last.timestamp,
    lowest.price, highest.price, median⟩

end Model

/-- When the last group starts, for trades after one at `start`: the times alone decide. -/
def lastGroupStart (seconds : ℤ) : ℤ → List ℤ → ℤ
  | start, [] => start
  | start, time :: times =>
    if time - start < seconds then lastGroupStart seconds start times
    else lastGroupStart seconds time times

def lastTime (start : ℤ) (times : List ℤ) : ℤ := (start :: times).getLast (List.cons_ne_nil _ _)

/-- The last trade starts the last group, and is later than the first. -/
def LastStartsGroup (seconds start : ℤ) (times : List ℤ) : Prop :=
  start < lastTime start times ∧ lastGroupStart seconds start times = lastTime start times

theorem lastGroupStart_mem (seconds start : ℤ) (times : List ℤ) :
    lastGroupStart seconds start times ∈ start :: times := by
  induction times generalizing start with
  | nil => exact List.mem_singleton_self start
  | cons time times ih =>
    rw [lastGroupStart]
    split
    · rcases List.mem_cons.mp (ih start) with heq | hmem
      · rw [heq]
        exact List.mem_cons_self
      · exact List.mem_cons_of_mem _ (List.mem_cons_of_mem _ hmem)
    · exact List.mem_cons_of_mem _ (ih time)

/-! ## Grouping -/

variable {lo hi : ℚ} {records : List (TradeRecord ℚ)}

/-- A trade of some volume at a price between two bounds. -/
def Within (lo hi : ℚ) (r : TradeRecord ℚ) : Prop :=
  0 < r.quantity ∧ lo ≤ r.price ∧ r.price ≤ hi

theorem Within.joined {last r : TradeRecord ℚ} (h : Within lo hi last) (hr : Within lo hi r) :
    ∃ group, joined last r = some group ∧ group.timestamp = last.timestamp ∧
      Within lo hi group ∧ group.quantity = last.quantity + r.quantity ∧
      group.price * group.quantity = last.price * last.quantity + r.price * r.quantity := by
  obtain ⟨hq, hlo, hhi⟩ := h
  obtain ⟨hq', hlo', hhi'⟩ := hr
  have hsum : 0 < last.quantity + r.quantity := add_pos hq hq'
  refine ⟨⟨last.timestamp, (last.price * last.quantity + r.price * r.quantity) /
    (last.quantity + r.quantity), last.quantity + r.quantity⟩, ?_, rfl, ⟨hsum, ?_, ?_⟩, rfl,
    div_mul_cancel₀ _ hsum.ne'⟩
  · simp [ExchangeTradeStatistics.joined, divide, hsum.ne']
  · rw [le_div_iff₀ hsum, mul_add]
    exact add_le_add (mul_le_mul_of_nonneg_right hlo hq.le)
      (mul_le_mul_of_nonneg_right hlo' hq'.le)
  · rw [div_le_iff₀ hsum, mul_add]
    exact add_le_add (mul_le_mul_of_nonneg_right hhi hq.le)
      (mul_le_mul_of_nonneg_right hhi' hq'.le)

/-- What grouping keeps of trades between two prices. The groups start at `first`, the last
    of them at `stop`. -/
structure Grouped (lo hi : ℚ) (first stop : ℤ) (records groups : List (TradeRecord ℚ)) :
    Prop where
  volume : volume groups = volume records
  notional : notional groups = notional records
  within : ∀ g ∈ groups, Within lo hi g
  start : groups.head?.map (·.timestamp) = some first
  le_twapSum : lo * (stop - first) ≤ twapSum groups
  twapSum_le : twapSum groups ≤ hi * (stop - first)

/-- **GROUPING** keeps volume and value; no group is priced outside the trades, and the
    weighted sum covers the time up to the start of the last group. -/
theorem groupFrom_grouped (seconds : ℤ) (rs : List (TradeRecord ℚ)) (last : TradeRecord ℚ)
    (hwithin : ∀ r ∈ last :: rs, Within lo hi r)
    (htimes : (last :: rs).Pairwise (·.timestamp ≤ ·.timestamp)) :
    ∃ groups, groupFrom seconds last rs = some groups ∧
      Grouped lo hi last.timestamp
        (lastGroupStart seconds last.timestamp (rs.map (·.timestamp))) (last :: rs) groups := by
  induction rs generalizing last with
  | nil =>
    refine ⟨[last], rfl, rfl, rfl, hwithin, rfl, ?_, ?_⟩
    · exact (mul_eq_zero_of_right _ (sub_self _)).le
    · exact (mul_eq_zero_of_right _ (sub_self _)).ge
  | cons r rs ih =>
    obtain ⟨hlast, hrs⟩ := List.forall_mem_cons.mp hwithin
    obtain ⟨hlast_le, htimes'⟩ := List.pairwise_cons.mp htimes
    rw [groupFrom, List.map_cons, lastGroupStart]
    by_cases hnear : r.timestamp - last.timestamp < seconds
    · obtain ⟨hr, hrs'⟩ := List.forall_mem_cons.mp hrs
      obtain ⟨group, hjoin, htime, hgroup, hquantity, hvalue⟩ := hlast.joined hr
      rw [if_pos hnear, if_pos hnear, hjoin, Option.bind_some]
      rw [← htime] at hlast_le ⊢
      obtain ⟨groups, hgroups, h⟩ := ih group (List.forall_mem_cons.mpr ⟨hgroup, hrs'⟩)
        (List.pairwise_cons.mpr ⟨(List.forall_mem_cons.mp hlast_le).2,
          (List.pairwise_cons.mp htimes').2⟩)
      refine ⟨groups, hgroups, { h with volume := ?_, notional := ?_ }⟩
      · rw [h.volume]
        simp only [volume, List.map_cons, List.sum_cons, hquantity, add_assoc]
      · rw [h.notional]
        simp only [notional, List.map_cons, List.sum_cons, mul_rat, hvalue, add_assoc]
    · obtain ⟨groups, hgroups, h⟩ := ih r hrs htimes'
      obtain ⟨g, hg, htime⟩ := Option.map_eq_some_iff.mp h.start
      obtain ⟨groups, rfl⟩ := List.head?_eq_some_iff.mp hg
      rw [if_neg hnear, if_neg hnear, hgroups, Option.map_some]
      -- the next group counts for the time since this one, at a price between the bounds
      have hspan : (0 : ℚ) ≤ r.timestamp - last.timestamp :=
        sub_nonneg.mpr (Int.cast_le.mpr (hlast_le r List.mem_cons_self))
      obtain ⟨-, hlo, hhi⟩ := h.within g List.mem_cons_self
      have hsum : twapSum (last :: g :: groups) =
          g.price * (r.timestamp - last.timestamp) + twapSum (g :: groups) := by
        simp only [twapSum, mul_rat, newDec_rat, Int.cast_sub, htime]
      refine ⟨last :: g :: groups, rfl, ?_, ?_, List.forall_mem_cons.mpr ⟨hlast, h.within⟩,
        rfl, ?_, ?_⟩
      · exact congrArg (last.quantity + ·) h.volume
      · exact congrArg (last.price * last.quantity + ·) h.notional
      · have := mul_le_mul_of_nonneg_right hlo hspan
        have := h.le_twapSum
        rw [hsum]
        linarith
      · have := mul_le_mul_of_nonneg_right hhi hspan
        have := h.twapSum_le
        rw [hsum]
        linarith

/-! ## Statistics -/

theorem notional_between (h : ∀ r ∈ records, Within lo hi r) :
    lo * volume records ≤ notional records ∧ notional records ≤ hi * volume records := by
  induction records with
  | nil => simp [volume, notional]
  | cons r rs ih =>
    obtain ⟨⟨hq, hlo, hhi⟩, hrs⟩ := List.forall_mem_cons.mp h
    obtain ⟨hlow, hhigh⟩ := ih hrs
    simp only [volume, notional, List.map_cons, List.sum_cons, mul_rat, mul_add] at hlow hhigh ⊢
    exact ⟨add_le_add (mul_le_mul_of_nonneg_right hlo hq.le) hlow,
      add_le_add (mul_le_mul_of_nonneg_right hhi hq.le) hhigh⟩

theorem volume_pos (hne : records ≠ []) (h : ∀ r ∈ records, 0 < r.quantity) :
    0 < volume records :=
  List.sum_pos _ (List.forall_mem_map.mpr h) (mt List.map_eq_nil_iff.mp hne)

theorem mem_sortedByPrice {l : List (TradeRecord ℚ)} {a : TradeRecord ℚ} :
    a ∈ sortedByPrice l ↔ a ∈ l :=
  (List.perm_insertionSort _ l).mem_iff

theorem sortedByPrice_between (hne : sortedByPrice records ≠ []) {r : TradeRecord ℚ}
    (hr : r ∈ records) :
    ((sortedByPrice records).head hne).price ≤ r.price ∧
      r.price ≤ ((sortedByPrice records).getLast hne).price := by
  have : Std.Total (fun a b : TradeRecord ℚ => a.price ≤ b.price) := ⟨fun _ _ => le_total _ _⟩
  have : Std.Refl (fun a b : TradeRecord ℚ => a.price ≤ b.price) := ⟨fun _ => le_rfl⟩
  have : IsTrans _ (fun a b : TradeRecord ℚ => a.price ≤ b.price) := ⟨fun _ _ _ => le_trans⟩
  have hsorted : (sortedByPrice records).Pairwise (fun a b => a.price ≤ b.price) :=
    List.pairwise_insertionSort _ records
  exact ⟨hsorted.rel_head (mem_sortedByPrice.mpr hr), hsorted.rel_getLast (mem_sortedByPrice.mpr hr)⟩

theorem medianPrice_between (hne : records ≠ [])
    (h : ∀ r ∈ records, lo ≤ r.price ∧ r.price ≤ hi) :
    ∃ median, medianPrice records = some median ∧ lo ≤ median ∧ median ≤ hi := by
  have hpos := List.length_pos_of_ne_nil hne
  have hupper := h _ (List.getElem_mem (n := records.length / 2) (by omega))
  have hlower := h _ (List.getElem_mem (n := records.length / 2 - 1) (by omega))
  rw [medianPrice, List.getElem?_eq_getElem (by omega), List.getElem?_eq_getElem (by omega)]
  by_cases heven : records.length % 2 = 0
  · refine ⟨_, by simp [heven, divide]; rfl, ?_, ?_⟩
    · rw [le_div_iff₀ two_pos]
      linarith
    · rw [div_le_iff₀ two_pos]
      linarith
  · exact ⟨_, by simp [heven], hupper⟩

/-- What the statistics promise but for the weighted price. -/
structure Consistent (records : List (TradeRecord ℚ)) (m : MetadataStatistics ℚ) : Prop where
  mean : m.mean = notional records / volume records
  median_between : m.minPrice ≤ m.medianPrice ∧ m.medianPrice ≤ m.maxPrice
  mean_between : m.minPrice ≤ m.mean ∧ m.mean ≤ m.maxPrice

/-- Trades at the given times, of some price and volume. -/
def TradesAt (times : List ℤ) (records : List (TradeRecord ℚ)) : Prop :=
  records.map (·.timestamp) = times ∧ ∀ r ∈ records, 0 < r.price ∧ 0 < r.quantity

section Trades

variable {start : ℤ} {times : List ℤ} (hsorted : (start :: times).Pairwise (· ≤ ·)) (seconds : ℤ)
include hsorted

theorem lastGroupStart_le_getLast :
    lastGroupStart seconds start times ≤ lastTime start times :=
  hsorted.rel_getLast (lastGroupStart_mem seconds start times)

/-- **ANY TRADES** at the given times: grouping keeps them, and the statistics are consistent
    with the weighted price `twap`, if there is one. -/
theorem statistics_spec (h : TradesAt (start :: times) records) :
    ∃ groups lowest highest, getRecordsGroupedBy records seconds = some groups ∧
      Grouped lowest highest start (lastGroupStart seconds start times) records groups ∧
      lowest ∈ records.map (·.price) ∧ highest ∈ records.map (·.price) ∧
      ∃ m : ℚ → MetadataStatistics ℚ, (∀ twap, Consistent records (m twap) ∧
          (m twap).twap = twap ∧ (m twap).minPrice = lowest ∧ (m twap).maxPrice = highest) ∧
        calculateStatistics records groups =
          (if times ≠ [] then divide (twapSum groups)
            (newDec (lastTime start times - start))
          else some 0).map (fun twap => some (m twap)) := by
  obtain ⟨htimes, hpos⟩ := h
  cases records with
  | nil => cases htimes
  | cons r rs =>
    obtain ⟨rfl, rfl⟩ := List.cons.inj htimes
    have hne : sortedByPrice (r :: rs) ≠ [] :=
      List.ne_nil_of_mem (mem_sortedByPrice.mpr List.mem_cons_self)
    have hbetween := fun r' hr' => sortedByPrice_between hne (r := r') hr'
    obtain ⟨median, hmedian, hmedian_between⟩ := medianPrice_between hne
      (fun r' hr' => hbetween r' (mem_sortedByPrice.mp hr'))
    have hwithin : ∀ r' ∈ r :: rs, Within _ _ r' :=
      fun r' hr' => ⟨(hpos r' hr').2, hbetween r' hr'⟩
    obtain ⟨groups, hgroups, hgrouped⟩ := groupFrom_grouped seconds rs r hwithin
      (List.pairwise_map.mp hsorted)
    have hvolume := volume_pos (List.cons_ne_nil r rs) (fun r' hr' => (hpos r' hr').2)
    have hmean : divide (notional groups) (volume groups) =
        some (notional (r :: rs) / volume (r :: rs)) := by
      rw [divide, hgrouped.volume, hgrouped.notional, if_neg hvolume.ne', quo_rat]
    have hmean_between := notional_between hwithin
    rw [← le_div_iff₀ hvolume, ← div_le_iff₀ hvolume] at hmean_between
    refine ⟨groups, _, _, hgroups, hgrouped,
      List.mem_map_of_mem (mem_sortedByPrice.mp (List.head_mem hne)),
      List.mem_map_of_mem (mem_sortedByPrice.mp (List.getLast_mem hne)),
      fun twap => ⟨groups.length, (r :: rs).length, notional (r :: rs) / volume (r :: rs), twap,
        r.timestamp, ((r :: rs).getLast (List.cons_ne_nil r rs)).timestamp, _, _, median⟩,
      fun twap => ⟨⟨rfl, hmedian_between, hmean_between⟩, rfl, rfl, rfl⟩, ?_⟩
    have hlast : lastTime r.timestamp (rs.map (·.timestamp)) =
        ((r :: rs).getLast (List.cons_ne_nil r rs)).timestamp :=
      List.getLast_map (l := r :: rs) (List.cons_ne_nil _ _)
    have hlong : 1 < (r :: rs).length ↔ rs.map (·.timestamp) ≠ [] := by
      rw [ne_eq, List.map_eq_nil_iff, ← List.length_eq_zero_iff, List.length_cons]
      omega
    simp only [calculateStatistics, hmedian, hmean, List.head?_eq_some_head hne,
      List.getLast?_eq_some_getLast hne, List.head?_cons,
      List.getLast?_eq_some_getLast (List.cons_ne_nil r rs), List.length_eq_zero_iff,
      List.cons_ne_nil, if_false, hlast, hlong]
    split
    · exact Option.map_eq_bind.symm
    · rfl

/-- Trades that all have the price one show that the times must be good. -/
theorem times_of_twap_between
    (hall : ∀ records groups, TradesAt (start :: times) records →
      getRecordsGroupedBy records seconds = some groups →
      ∃ m, calculateStatistics records groups = some (some m) ∧
        (times ≠ [] → m.minPrice ≤ m.twap ∧ m.twap ≤ m.maxPrice))
    (hne : times ≠ []) : LastStartsGroup seconds start times := by
  have htrades : TradesAt (start :: times)
      ((start :: times).map (fun time => (⟨time, 1, 1⟩ : TradeRecord ℚ))) := by
    refine ⟨?_, List.forall_mem_map.mpr (fun _ _ => ⟨one_pos, one_pos⟩)⟩
    rw [List.map_map]
    exact List.map_id _
  obtain ⟨groups, lowest, highest, hgroups, hgrouped, hlow, hhigh, m, hm, hstats⟩ :=
    statistics_spec hsorted seconds htrades
  rw [List.map_map] at hlow hhigh
  obtain ⟨_, -, rfl⟩ := List.mem_map.mp hlow
  obtain ⟨_, -, rfl⟩ := List.mem_map.mp hhigh
  obtain ⟨m', hm', hbetween⟩ := hall _ groups htrades hgroups
  rw [hstats, if_pos hne] at hm'
  obtain ⟨twap, hdivide, heq⟩ := Option.map_eq_some_iff.mp hm'
  obtain ⟨-, htwap, hmin, -⟩ := hm twap
  have hle := (hbetween hne).1
  rw [← Option.some.inj heq, htwap, hmin] at hle
  rw [divide, newDec_rat] at hdivide
  split at hdivide
  · cases hdivide
  next hspan =>
  have hlt : start < lastTime start times := by
    refine lt_of_le_of_ne (hsorted.rel_getLast List.mem_cons_self) (fun heq => hspan ?_)
    rw [← heq, sub_self, Int.cast_zero]
  refine ⟨hlt, le_antisymm (lastGroupStart_le_getLast hsorted seconds) ?_⟩
  have hsum := hgrouped.twapSum_le
  rw [← Option.some.inj hdivide, quo_rat,
    le_div_iff₀ (Int.cast_pos (R := ℚ).mpr (sub_pos.mpr hlt)), Int.cast_sub] at hle
  exact Int.cast_le (R := ℚ).mp (by simp only [Function.comp_apply] at hle hsum; linarith)

theorem twap_between_of_times (h : TradesAt (start :: times) records)
    {groups : List (TradeRecord ℚ)} (hgroups : getRecordsGroupedBy records seconds = some groups)
    (htimes : times = [] ∨ LastStartsGroup seconds start times) :
    ∃ m, calculateStatistics records groups = some (some m) ∧
      (times ≠ [] → m.minPrice ≤ m.twap ∧ m.twap ≤ m.maxPrice) := by
  obtain ⟨groups', lowest, highest, hgroups', hgrouped, -, -, m, hm, hstats⟩ :=
    statistics_spec hsorted seconds h
  obtain rfl := Option.some.inj (hgroups'.symm.trans hgroups)
  rw [hstats]
  by_cases hne : times = []
  · rw [if_neg (not_not.mpr hne), Option.map_some]
    exact ⟨_, rfl, fun h => absurd hne h⟩
  · obtain ⟨hlt, hlast⟩ := htimes.resolve_left hne
    have hpos := Int.cast_pos (R := ℚ).mpr (sub_pos.mpr hlt)
    rw [if_pos hne, divide, newDec_rat, if_neg hpos.ne', Option.map_some, quo_rat]
    refine ⟨_, rfl, fun _ => ?_⟩
    obtain ⟨-, htwap, hmin, hmax⟩ := hm (twapSum groups' / (lastTime start times - start : ℤ))
    rw [htwap, hmin, hmax, le_div_iff₀ hpos, div_le_iff₀ hpos, Int.cast_sub, ← hlast]
    exact ⟨hgrouped.le_twapSum, hgrouped.twapSum_le⟩

end Trades

/-- **WHEN THE WEIGHTED PRICE IS ONE**: grouping keeps volume and value and the other
    statistics are consistent. The weighted price of all trades at given times lies between
    their prices exactly if there is one trade, or the last group starts with the last trade
    and not with the first. -/
theorem twap_between_iff (start : ℤ) (times : List ℤ)
    (hsorted : (start :: times).Pairwise (· ≤ ·)) (seconds : ℤ) :
    (∀ records, TradesAt (start :: times) records →
      ∃ groups, getRecordsGroupedBy records seconds = some groups ∧
        volume groups = volume records ∧ notional groups = notional records ∧
        ∀ m, calculateStatistics records groups = some (some m) → Consistent records m) ∧
    ((∀ records groups, TradesAt (start :: times) records →
        getRecordsGroupedBy records seconds = some groups →
        ∃ m, calculateStatistics records groups = some (some m) ∧
          (times ≠ [] → m.minPrice ≤ m.twap ∧ m.twap ≤ m.maxPrice)) ↔
      times = [] ∨ LastStartsGroup seconds start times) := by
  refine ⟨?_, ?_, ?_⟩
  · intro records h
    obtain ⟨groups, _, _, hgroups, hgrouped, -, -, m, hm, hstats⟩ :=
      statistics_spec hsorted seconds h
    refine ⟨groups, hgroups, hgrouped.volume, hgrouped.notional, ?_⟩
    intro m' hm'
    rw [hstats] at hm'
    obtain ⟨twap, -, htwap⟩ := Option.map_eq_some_iff.mp hm'
    rw [← Option.some.inj htwap]
    exact (hm twap).1
  · exact fun hall => or_iff_not_imp_left.mpr (times_of_twap_between hsorted seconds hall)
  · exact fun htimes records groups h hgroups =>
      twap_between_of_times hsorted seconds h hgroups htimes

/-- Two trades at one time and a third in a later group. -/
def sampleRecords : List (TradeRecord ℚ) := [⟨0, 2, 1⟩, ⟨0, 4, 1⟩, ⟨30, 3, 2⟩]

theorem twap_between_sample :
    ∃ m, calculateStatistics sampleRecords [⟨0, 3, 2⟩, ⟨30, 3, 2⟩] = some (some m) ∧
      ([0, 30] ≠ ([] : List ℤ) → m.minPrice ≤ m.twap ∧ m.twap ≤ m.maxPrice) :=
  (twap_between_iff 0 [0, 30] (by decide) 15).2.mpr (Or.inr ⟨by decide, by decide⟩) sampleRecords _
    ⟨rfl, by decide +kernel⟩ (by decide +kernel)

/-- Two trades five seconds apart fall into one group: the weighted price is zero. Two
    trades at one time have no statistics. -/
theorem twap_below_minPrice :
    (∃ groups m, getRecordsGroupedBy ([⟨0, 2, 1⟩, ⟨5, 2, 1⟩] : List (TradeRecord ℚ)) 15 =
        some groups ∧
      calculateStatistics [⟨0, 2, 1⟩, ⟨5, 2, 1⟩] groups = some (some m) ∧
      m.twap = 0 ∧ m.minPrice = 2) ∧
    ∃ groups, getRecordsGroupedBy ([⟨0, 2, 1⟩, ⟨0, 2, 1⟩] : List (TradeRecord ℚ)) 15 =
        some groups ∧
      calculateStatistics [⟨0, 2, 1⟩, ⟨0, 2, 1⟩] groups = none :=
  ⟨⟨[⟨0, 2, 2⟩], ⟨1, 2, 2, 0, 0, 5, 2, 2, 2⟩, by decide +kernel, by decide +kernel, rfl, rfl⟩,
    [⟨0, 2, 2⟩], by decide +kernel, by decide +kernel⟩

end ExchangeTradeStatistics
