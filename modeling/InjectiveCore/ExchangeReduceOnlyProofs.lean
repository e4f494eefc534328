import InjectiveCore.ExchangeSubaccountOrdersProofs

/-!
# Reduce-only orders — executable as long as the two passes find what they look for

A reduce-only order is **executable** when everything of its side that is filled before
it, or with it, fits into the position: the orders priced equal to or better than it.
`ensureValidDerivativeOrder` is meant to keep this of every reduce-only order when a new
order is accepted. Unless everything fits anyway, the resolution of conflicts reads the side
in two passes over the stored keys. `Resolves` says, for one new order, that they find what
they look for.

- `accepted_executable`: acceptance then keeps every reduce-only order executable. What is
  left to show is the rule of `PriorityCancel` for making room from the back.
- `resolves_of_reachesWorse`: the passes find everything on a side whose keys are read in
  price order, so that behind any of them the iteration reaches every worse price.
-/

namespace ExchangeReduceOnly

open DecArith ExchangePosition ExchangeFees ExchangeDerivativeFill ExchangeDerivativeHold
open ExchangeSubaccountOrders PriorityCancel

/-! ## The statement -/

/-- The quantity of the orders priced equal to or better than `price`. -/
def equalOrBetterQuantity (isBuy : Bool) (orders : List SubaccountOrderData)
    (price : LegacyDec) : LegacyDec :=
  ((orders.filter (fun o => !isWorse isBuy o.order.price price)).map
    (fun o => o.order.quantity)).sum

/-- Each reduce-only order fits into the position together with the orders priced equal
    to or better than it. -/
def Executable (isBuy : Bool) (positionQuantity : LegacyDec)
    (orders : List SubaccountOrderData) : Prop :=
  ∀ r ∈ orders, r.order.isReduceOnly = true →
    equalOrBetterQuantity isBuy orders r.order.price ≤ positionQuantity

instance (isBuy : Bool) (positionQuantity : LegacyDec) (orders : List SubaccountOrderData) :
    Decidable (Executable isBuy positionQuantity orders) :=
  inferInstanceAs (Decidable (∀ r ∈ orders, r.order.isReduceOnly = true →
    equalOrBetterQuantity isBuy orders r.order.price ≤ positionQuantity))

/-- The index is in key order, holds no empty orders, and the metadata sums it up. -/
structure Consistent (s : OrderSide) : Prop where
  sorted : s.orders.Pairwise (fun a b => a.key < b.key)
  positive : ∀ o ∈ s.orders, 0 < o.order.quantity
  reduceOnly : s.metadata.aggregateReduceOnlyQuantity =
    total (fun o => o.order.quantity) (s.orders.filter (fun o => o.order.isReduceOnly))
  vanilla : s.metadata.aggregateVanillaQuantity =
    total (fun o => o.order.quantity) (s.orders.filter (fun o => !o.order.isReduceOnly))

/-- What the resolution of conflicts reads of the side is complete, for the new order: it reads
    nothing because everything fits into the position; or the first pass finds every order
    priced equal to or better than a new reduce-only order, and the second pass, if it is made,
    every order priced equal to or better than some reduce-only order. -/
def Resolves (E : OrderChecks) (side : OrderSide) (order : DerivativeOrder LegacyDec)
    (positionQuantity : LegacyDec) : Prop :=
  let isBuy := order.orderType.isBuy
  let eob := getEqualOrBetterPricedSubaccountOrderResults side.orders isBuy
    order.orderInfo.price
  let worst := getWorstROAndAllBetterPricedSubaccountOrders E.sliceStable side.orders
    side.metadata.aggregateReduceOnlyQuantity isBuy eob
  positionQuantity < order.orderInfo.quantity + side.metadata.aggregateReduceOnlyQuantity +
      side.metadata.aggregateVanillaQuantity →
    (order.isReduceOnly = true → ∀ o ∈ side.orders,
      isWorse isBuy o.order.price order.orderInfo.price = false →
        o ∈ eob.vanillaOrders ++ eob.reduceOnlyOrders) ∧
    (0 < side.metadata.aggregateReduceOnlyQuantity - eob.cumulativeBetterReduceOnlyQuantity →
      ∀ r ∈ side.orders, r.order.isReduceOnly = true → ∀ o ∈ side.orders,
        isWorse isBuy o.order.price r.order.price = false → o ∈ worst.1)

/-- Behind any of the keys, the iteration reaches every key with a worse price. -/
def ReachesWorse (isBuy : Bool) (keys : List (LegacyDec × Hash)) : Prop :=
  ∀ a ∈ keys, ∀ b ∈ keys, isWorse isBuy b.1 a.1 = true →
    inRange isBuy (some (getSubaccountOrderIterationKey a.1 a.2))
      (getSubaccountOrderIterationKey b.1 b.2) = true

/-- The price and hash an order is stored under. -/
def storedAt (o : SubaccountOrderData) : LegacyDec × Hash := (o.order.price, o.orderHash)

/-! ## Prices as ranks -/

/-- The place of a price in the sequence of filling: the lower the better. -/
def priceRank (isBuy : Bool) (price : LegacyDec) : LegacyDec :=
  if isBuy then -price else price

variable {isBuy : Bool} {price limit : LegacyDec}

theorem isWorse_iff :
    isWorse isBuy price limit = true ↔ priceRank isBuy limit < priceRank isBuy price := by
  cases isBuy <;> simp [isWorse, priceRank]

theorem isBetter_iff :
    isBetter isBuy price limit = true ↔ priceRank isBuy price < priceRank isBuy limit := by
  cases isBuy <;> simp [isBetter, priceRank]

theorem not_isWorse_iff :
    (!isWorse isBuy price limit) = decide (priceRank isBuy price ≤ priceRank isBuy limit) := by
  rw [Bool.eq_iff_iff, Bool.not_eq_true', decide_eq_true_eq, ← not_lt, ← isWorse_iff,
    Bool.not_eq_true]

theorem priceRank_inj {p q : LegacyDec} : priceRank isBuy p = priceRank isBuy q ↔ p = q := by
  cases isBuy <;> simp [priceRank]

/-- The rank of a stored order. -/
abbrev rankOf (isBuy : Bool) (o : SubaccountOrderData) : LegacyDec :=
  priceRank isBuy o.order.price

/-- The weight of a stored order. -/
abbrev quantityOf (o : SubaccountOrderData) : LegacyDec := o.order.quantity

/-- The marked orders. -/
abbrev isRO (o : SubaccountOrderData) : Bool := o.order.isReduceOnly

variable {orders : List SubaccountOrderData}

theorem executable_iff {Q : LegacyDec} :
    Executable isBuy Q orders ↔ Fits (rankOf isBuy) quantityOf isRO Q orders := by
  simp only [Executable, Fits, equalOrBetterQuantity, ahead, total, not_isWorse_iff]

theorem ordered_iff {a b : SubaccountOrderData} :
    less isBuy a b = true ∨ less isBuy b a = false ↔ Later (rankOf isBuy) isRO a b := by
  by_cases hprice : a.order.price = b.order.price
  · have hrank : rankOf isBuy a = rankOf isBuy b := by rw [rankOf, rankOf, hprice]
    simp only [Later, less, hprice, if_true, hrank, lt_self_iff_false, false_or, true_and]
  · have hne : ¬b.order.price = a.order.price := fun heq => hprice heq.symm
    have hrank : rankOf isBuy a ≠ rankOf isBuy b := fun heq => hprice (priceRank_inj.mp heq)
    simp only [Later, hrank, false_and, or_false]
    rw [rankOf, rankOf, ← isWorse_iff]
    rcases lt_or_gt_of_ne hprice with hlt | hlt <;> cases isBuy <;>
      simp [less, isWorse, hprice, hne, hlt, not_lt_of_gt hlt]

/-! ## Where the iteration goes -/

/-- The key comes later in the iteration. -/
def Precedes (isBuy : Bool) (k k' : List ℕ) : Prop := if isBuy then k' < k else k < k'

theorem Precedes.asymm {k k' : List ℕ} (h : Precedes isBuy k k') : ¬Precedes isBuy k' k := by
  cases isBuy <;> exact not_lt_of_gt h

theorem point_mem_key (o : SubaccountOrderData) : 46 ∈ o.key := by
  simp [SubaccountOrderData.key, getSubaccountOrderIterationKey, getPaddedPrice]

variable {o : SubaccountOrderData}

theorem precedes_of_inRange {key : List ℕ} (h : inRange isBuy (some o.key) key = true) :
    Precedes isBuy o.key key := by
  have hpoint := point_mem_key o
  generalize o.key = k at h hpoint
  cases isBuy with
  | true =>
    simp only [inRange, if_true, Option.bind_some, subtractBitFromPrefix] at h
    cases hp : ByteKey.predecessor k with
    | none => exact absurd (ByteKey.eq_zero_of_predecessor hp 46 hpoint) (by decide)
    | some endInfix =>
      simp only [hp, decide_eq_true_eq] at h
      exact lt_trans h (ByteKey.predecessor_lt hp)
  | false =>
    simp only [inRange, Bool.false_eq_true, if_false, Option.bind_some, addBitToPrefix] at h
    cases hs : ByteKey.successor k with
    | none => exact absurd (ByteKey.eq_255_of_successor hs 46 hpoint) (by decide)
    | some startInfix =>
      simp only [hs, decide_eq_true_eq] at h
      exact lt_of_lt_of_le (ByteKey.lt_successor hs) h

/-- The orders in the sequence in which the iteration meets them. -/
def visited (isBuy : Bool) (orders : List SubaccountOrderData) : List SubaccountOrderData :=
  if isBuy then orders.reverse else orders

theorem mem_visited : o ∈ visited isBuy orders ↔ o ∈ orders := by
  cases isBuy <;> simp [visited]

theorem visited_perm (isBuy : Bool) (orders : List SubaccountOrderData) :
    (visited isBuy orders).Perm orders := by
  cases isBuy with
  | true => exact List.reverse_perm orders
  | false => exact List.Perm.refl _

theorem iterate_eq (isBuy : Bool) (start : Option (List ℕ))
    (orders : List SubaccountOrderData) :
    iterateSubaccountOrdersStartingFromOrder isBuy true start orders =
      (visited isBuy orders).filter (fun o => inRange isBuy start o.key) := by
  cases isBuy <;> simp [iterateSubaccountOrdersStartingFromOrder, visited]

theorem iterate_none (isBuy : Bool) (orders : List SubaccountOrderData) :
    iterateSubaccountOrdersStartingFromOrder isBuy true none orders = visited isBuy orders := by
  rw [iterate_eq, List.filter_eq_self]
  intro o _
  cases isBuy <;> rfl

theorem visited_precedes (h : orders.Pairwise (fun a b => a.key < b.key)) :
    (visited isBuy orders).Pairwise (fun a b => Precedes isBuy a.key b.key) := by
  cases isBuy with
  | true => exact List.pairwise_reverse.mpr h
  | false => exact h

theorem Consistent.nonneg {side : OrderSide} (h : Consistent side) :
    ∀ o ∈ side.orders, 0 ≤ quantityOf o := fun o ho => le_of_lt (h.positive o ho)

theorem nodup_of_sorted (h : orders.Pairwise (fun a b => a.key < b.key)) : orders.Nodup := by
  refine h.imp ?_
  intro a b hab heq
  rw [heq] at hab
  exact lt_irrefl _ hab

/-! ## The first pass -/

/-- The orders the first pass collects: those met before the first worse priced one. -/
def found (isBuy : Bool) (orders : List SubaccountOrderData) (price : LegacyDec) :
    List SubaccountOrderData :=
  (visited isBuy orders).takeWhile (fun o => !isWorse isBuy o.order.price price)

/-- `r'` is `r` with the orders `l` added to it. -/
structure Collects (price : LegacyDec) (r r' : SubaccountOrderResults)
    (l : List SubaccountOrderData) : Prop where
  reduceOnlyOrders : r'.reduceOnlyOrders = r.reduceOnlyOrders ++ l.filter isRO
  vanillaOrders : r'.vanillaOrders = r.vanillaOrders ++ l.filter (fun o => !isRO o)
  reduceOnly : r'.cumulativeEOBReduceOnlyQuantity =
    r.cumulativeEOBReduceOnlyQuantity + total quantityOf (l.filter isRO)
  vanilla : r'.cumulativeEOBVanillaQuantity =
    r.cumulativeEOBVanillaQuantity + total quantityOf (l.filter (fun o => !isRO o))
  better : r'.cumulativeBetterReduceOnlyQuantity =
    r.cumulativeBetterReduceOnlyQuantity +
      total quantityOf (l.filter (fun o => decide (price ≠ o.order.price) && isRO o))
  last : r'.lastFoundOrder = (l.getLast?.map storedAt).or r.lastFoundOrder

theorem process_collects (price : LegacyDec) (r : SubaccountOrderResults)
    (d : SubaccountOrderData) : Collects price r (r.process price d) [d] := by
  cases hro : d.order.isReduceOnly <;> by_cases hprice : price = d.order.price <;>
    constructor <;>
    simp [SubaccountOrderResults.process, SubaccountOrderResults.addSubaccountOrder, hro,
      hprice, storedAt]

variable {l m : List SubaccountOrderData}

theorem Collects.trans {r r' r'' : SubaccountOrderResults} (h : Collects price r r' l)
    (h' : Collects price r' r'' m) : Collects price r r'' (l ++ m) where
  reduceOnlyOrders := by
    rw [h'.reduceOnlyOrders, h.reduceOnlyOrders, List.filter_append, List.append_assoc]
  vanillaOrders := by
    rw [h'.vanillaOrders, h.vanillaOrders, List.filter_append, List.append_assoc]
  reduceOnly := by
    rw [h'.reduceOnly, h.reduceOnly, List.filter_append, total_append, add_assoc]
  vanilla := by rw [h'.vanilla, h.vanilla, List.filter_append, total_append, add_assoc]
  better := by rw [h'.better, h.better, List.filter_append, total_append, add_assoc]
  last := by
    rw [h'.last, h.last, List.getLast?_append]
    cases m.getLast? <;> rfl

theorem foldl_collects (price : LegacyDec) (r : SubaccountOrderResults)
    (l : List SubaccountOrderData) :
    Collects price r (l.foldl (SubaccountOrderResults.process price) r) l := by
  induction l generalizing r with
  | nil => constructor <;> simp
  | cons d l ih => exact (process_collects price r d).trans (ih (r.process price d))

/-- **FIRST PASS**: the results are about the orders met before the first worse one. -/
theorem eobResults_found (isBuy : Bool) (orders : List SubaccountOrderData)
    (price : LegacyDec) :
    Collects price newSubaccountOrderResults
      (getEqualOrBetterPricedSubaccountOrderResults orders isBuy price)
      (found isBuy orders price) := by
  have heq : getEqualOrBetterPricedSubaccountOrderResults orders isBuy price =
      (found isBuy orders price).foldl (SubaccountOrderResults.process price)
        newSubaccountOrderResults := by
    rw [getEqualOrBetterPricedSubaccountOrderResults, iterate_none, found]
    exact scanUntil_eq_foldl_takeWhile
      (fun d : SubaccountOrderData => isWorse isBuy d.order.price price) _ _ _
  rw [heq]
  exact foldl_collects price _ _

theorem eobResults_total (isBuy : Bool) (orders : List SubaccountOrderData)
    (price : LegacyDec) :
    (getEqualOrBetterPricedSubaccountOrderResults orders isBuy
        price).cumulativeEOBReduceOnlyQuantity +
      (getEqualOrBetterPricedSubaccountOrderResults orders isBuy
        price).cumulativeEOBVanillaQuantity =
      total quantityOf (found isBuy orders price) := by
  have h := eobResults_found isBuy orders price
  rw [h.reduceOnly, h.vanilla]
  simp only [newSubaccountOrderResults, zero_add]
  exact total_filter_add_total_filter_not isRO _

section FirstPass

variable {isBuy : Bool} {orders : List SubaccountOrderData} {price : LegacyDec}
  {o : SubaccountOrderData}

theorem mem_results : o ∈
    (getEqualOrBetterPricedSubaccountOrderResults orders isBuy price).vanillaOrders ++
      (getEqualOrBetterPricedSubaccountOrderResults orders isBuy price).reduceOnlyOrders ↔
    o ∈ found isBuy orders price := by
  have h := eobResults_found isBuy orders price
  rw [h.vanillaOrders, h.reduceOnlyOrders]
  simp only [newSubaccountOrderResults, List.nil_append]
  exact (List.perm_append_comm.trans (List.filter_append_perm isRO _)).mem_iff

theorem found_subset (ho : o ∈ found isBuy orders price) :
    o ∈ orders ∧ rankOf isBuy o ≤ priceRank isBuy price := by
  refine ⟨mem_visited.mp ((List.takeWhile_sublist _).subset ho), ?_⟩
  have hnot := List.mem_takeWhile_imp ho
  rw [not_isWorse_iff, decide_eq_true_eq] at hnot
  exact hnot

theorem found_nodup (hsorted : orders.Pairwise (fun a b => a.key < b.key)) :
    (found isBuy orders price).Nodup :=
  ((visited_perm isBuy orders).nodup_iff.mpr (nodup_of_sorted hsorted)).sublist
    (List.takeWhile_sublist _)

/-- A first pass that finds every equal or better price comes with their quantity. -/
theorem total_found (hsorted : orders.Pairwise (fun a b => a.key < b.key))
    (hfinds : ∀ o ∈ orders, isWorse isBuy o.order.price price = false →
      o ∈ found isBuy orders price) :
    total quantityOf (found isBuy orders price) =
      ahead (rankOf isBuy) quantityOf orders (priceRank isBuy price) := by
  refine total_perm ((List.perm_ext_iff_of_nodup (found_nodup hsorted)
    ((nodup_of_sorted hsorted).filter _)).mpr ?_)
  intro o
  rw [List.mem_filter, decide_eq_true_eq]
  constructor
  · exact found_subset
  · rintro ⟨ho, hle⟩
    exact hfinds o ho (Bool.eq_false_iff.mpr (mt isWorse_iff.mp (not_lt.mpr hle)))

/-- When all reduce-only quantity was found at strictly better prices, nothing is in the
    way. -/
theorem no_worse_of_max_le_zero {side : OrderSide} (hside : Consistent side)
    (hmax : side.metadata.aggregateReduceOnlyQuantity -
      (getEqualOrBetterPricedSubaccountOrderResults side.orders isBuy
        price).cumulativeBetterReduceOnlyQuantity ≤ 0) {r : SubaccountOrderData}
    (hr : r ∈ side.orders) (hro : isRO r = true) : rankOf isBuy r < priceRank isBuy price := by
  rw [hside.reduceOnly, (eobResults_found isBuy side.orders price).better] at hmax
  simp only [newSubaccountOrderResults, zero_add] at hmax
  set better := (found isBuy side.orders price).filter
    (fun o => decide (price ≠ o.order.price) && isRO o)
  by_contra hlt
  -- the order itself would be reduce-only quantity that was not counted
  have hnot : r ∉ better := by
    intro hmem
    obtain ⟨hfound, hne⟩ := List.mem_filter.mp hmem
    have heq := le_antisymm (found_subset hfound).2 (not_lt.mp hlt)
    rw [priceRank_inj.mp heq] at hne
    simp at hne
  have hle : total quantityOf (r :: better) ≤ total quantityOf (side.orders.filter isRO) := by
    refine total_le_of_subset (List.nodup_cons.mpr ⟨hnot, (found_nodup hside.sorted).filter _⟩)
      ?_ (fun x hx => hside.nonneg x (List.mem_of_mem_filter hx))
    intro x hx
    rcases List.mem_cons.mp hx with rfl | hx
    · exact List.mem_filter.mpr ⟨hr, hro⟩
    · obtain ⟨hfound, hmarks⟩ := List.mem_filter.mp hx
      exact List.mem_filter.mpr ⟨(found_subset hfound).1, (Bool.and_eq_true _ _ ▸ hmarks).2⟩
  rw [total_cons] at hle
  exact absurd (hle.trans (sub_nonpos.mp hmax))
    (not_le.mpr (lt_add_of_pos_left _ (hside.positive r hr)))

end FirstPass

section PriceOrder

variable {isBuy : Bool} {orders : List SubaccountOrderData} {price : LegacyDec}

theorem ReachesWorse.inRange (hreach : ReachesWorse isBuy (orders.map storedAt))
    {a b : SubaccountOrderData} (ha : a ∈ orders) (hb : b ∈ orders)
    (hrank : rankOf isBuy a < rankOf isBuy b) :
    ExchangeSubaccountOrders.inRange isBuy (some a.key) b.key = true :=
  hreach (storedAt a) (List.mem_map_of_mem ha) (storedAt b) (List.mem_map_of_mem hb)
    (isWorse_iff.mpr hrank)

/-- From the best price to the worst. -/
abbrev Ranked (isBuy : Bool) (l : List SubaccountOrderData) : Prop :=
  l.Pairwise (fun a b => rankOf isBuy a ≤ rankOf isBuy b)

/-- When better priced orders are met first, the iteration goes from the best price to
    the worst. -/
theorem visited_ranked (hsorted : orders.Pairwise (fun a b => a.key < b.key))
    (hfirst : ∀ a ∈ orders, ∀ b ∈ orders, rankOf isBuy a < rankOf isBuy b →
      Precedes isBuy a.key b.key) : Ranked isBuy (visited isBuy orders) := by
  refine (visited_precedes hsorted).imp_of_mem ?_
  intro a b ha hb hab
  by_contra hlt
  exact hab.asymm (hfirst b (mem_visited.mp hb) a (mem_visited.mp ha) (not_le.mp hlt))

theorem ReachesWorse.ranked (hreach : ReachesWorse isBuy (orders.map storedAt))
    (hsorted : orders.Pairwise (fun a b => a.key < b.key)) :
    Ranked isBuy (visited isBuy orders) :=
  visited_ranked hsorted fun _ ha _ hb hrank =>
    precedes_of_inRange (hreach.inRange ha hb hrank)

theorem found_eq_filter (hranked : Ranked isBuy (visited isBuy orders)) :
    found isBuy orders price = (visited isBuy orders).filter
      (fun o => decide (rankOf isBuy o ≤ priceRank isBuy price)) := by
  rw [found]
  simp only [not_isWorse_iff]
  refine takeWhile_eq_filter (hranked.imp ?_)
  intro a b hab hb
  exact decide_eq_true (hab.trans (of_decide_eq_true hb))

variable {o : SubaccountOrderData}

theorem mem_found (hranked : Ranked isBuy (visited isBuy orders)) :
    o ∈ found isBuy orders price ↔ o ∈ orders ∧ rankOf isBuy o ≤ priceRank isBuy price := by
  rw [found_eq_filter hranked, List.mem_filter, mem_visited, decide_eq_true_eq]

/-! ## The second pass -/

/-- The key the second pass resumes from. -/
def resumeKey (isBuy : Bool) (orders : List SubaccountOrderData) (price : LegacyDec) :
    Option (List ℕ) :=
  (found isBuy orders price).getLast?.map SubaccountOrderData.key

theorem startOrderKey_eq :
    (getEqualOrBetterPricedSubaccountOrderResults orders isBuy price).lastFoundOrder.map
      (fun last => getSubaccountOrderIterationKey last.1 last.2) =
      resumeKey isBuy orders price := by
  rw [(eobResults_found isBuy orders price).last, resumeKey]
  cases (found isBuy orders price).getLast? <;> rfl

/-- The orders the second pass goes through. -/
def resumed (isBuy : Bool) (orders : List SubaccountOrderData) (price : LegacyDec) :
    List SubaccountOrderData :=
  iterateSubaccountOrdersStartingFromOrder isBuy true (resumeKey isBuy orders price) orders

theorem resumed_sublist : (resumed isBuy orders price).Sublist (visited isBuy orders) := by
  rw [resumed, iterate_eq]
  exact List.filter_sublist

/-- The second pass meets no order that the first has found. -/
theorem not_mem_found_of_mem_resumed (hsorted : orders.Pairwise (fun a b => a.key < b.key))
    (ho : o ∈ resumed isBuy orders price) : o ∉ found isBuy orders price := by
  rw [resumed, iterate_eq] at ho
  intro hfound
  obtain ⟨last, hlast⟩ := Option.isSome_iff_exists.mp
    (List.getLast?_isSome.mpr (List.ne_nil_of_mem hfound))
  have hin := (List.mem_filter.mp ho).2
  rw [resumeKey, hlast, Option.map_some] at hin
  have hprec := precedes_of_inRange hin
  rcases eq_or_rel_getLast ((visited_precedes hsorted).sublist (List.takeWhile_sublist _)) hlast
    hfound with rfl | hbefore
  · exact hprec.asymm hprec
  · exact hbefore.asymm hprec

/-- The orders worse than a price, in the sequence of the iteration. -/
def worse (isBuy : Bool) (orders : List SubaccountOrderData) (price : LegacyDec) :
    List SubaccountOrderData :=
  (visited isBuy orders).filter (fun o => decide (priceRank isBuy price < rankOf isBuy o))

theorem resumed_eq (hsorted : orders.Pairwise (fun a b => a.key < b.key))
    (hreach : ReachesWorse isBuy (orders.map storedAt)) :
    resumed isBuy orders price = worse isBuy orders price := by
  rw [resumed, iterate_eq, worse]
  refine List.filter_congr ?_
  intro o ho
  rw [resumeKey]
  cases hlast : (found isBuy orders price).getLast? with
  | none =>
    -- nothing was found, so no order is priced equal or better
    have hnil : found isBuy orders price = [] := List.getLast?_eq_none_iff.mp hlast
    have hrank : ¬rankOf isBuy o ≤ priceRank isBuy price := by
      intro hle
      have hmem := (mem_found (hreach.ranked hsorted)).mpr ⟨mem_visited.mp ho, hle⟩
      rw [hnil] at hmem
      exact nomatch hmem
    rw [decide_eq_true (not_le.mp hrank)]
    cases isBuy <;> rfl
  | some last =>
    have hmem : last ∈ found isBuy orders price := List.mem_of_getLast? hlast
    obtain ⟨hlo, hrank⟩ := (mem_found (hreach.ranked hsorted)).mp hmem
    rw [Bool.eq_iff_iff, decide_eq_true_eq, Option.map_some]
    constructor
    · intro hin
      by_contra hle
      have hfound := (mem_found (hreach.ranked hsorted)).mpr ⟨mem_visited.mp ho, not_lt.mp hle⟩
      refine not_mem_found_of_mem_resumed hsorted ?_ hfound
      rw [resumed, iterate_eq, resumeKey, hlast]
      exact List.mem_filter.mpr ⟨ho, hin⟩
    · intro hlt
      exact hreach.inRange hlo (mem_visited.mp ho) (lt_of_le_of_lt hrank hlt)

theorem mem_worse :
    o ∈ worse isBuy orders price ↔ o ∈ orders ∧ priceRank isBuy price < rankOf isBuy o := by
  rw [worse, List.mem_filter, mem_visited, decide_eq_true_eq]

theorem found_append_worse_perm (hsorted : orders.Pairwise (fun a b => a.key < b.key))
    (hreach : ReachesWorse isBuy (orders.map storedAt)) :
    (found isBuy orders price ++ worse isBuy orders price).Perm orders := by
  have hnot : worse isBuy orders price = (visited isBuy orders).filter
      (fun o => !decide (rankOf isBuy o ≤ priceRank isBuy price)) := by
    refine List.filter_congr fun o _ => ?_
    rw [← decide_not, decide_eq_decide, not_le]
  rw [found_eq_filter (hreach.ranked hsorted), hnot]
  exact (List.filter_append_perm _ _).trans (visited_perm isBuy orders)

end PriceOrder

/-- `s'` is `s` after the orders `l`. -/
structure Scans (s s' : WorstROScan) (l : List SubaccountOrderData) : Prop where
  foundROQuantity : s'.foundROQuantity = s.foundROQuantity + total quantityOf (l.filter isRO)
  worstROPrice : s'.worstROPrice =
    ((l.filter isRO).getLast?.map (fun o => o.order.price)).getD s.worstROPrice
  totalQuantity : s'.totalQuantityFromWorstRO =
    s.totalQuantityFromWorstRO + total quantityOf l
  orders : s'.worstROandBetterOrders = s.worstROandBetterOrders ++ l

theorem process_scans (s : WorstROScan) (d : SubaccountOrderData) : Scans s (s.process d) [d] := by
  cases hro : d.order.isReduceOnly <;> constructor <;> simp [WorstROScan.process, hro]

theorem Scans.trans {s s' s'' : WorstROScan} (h : Scans s s' l) (h' : Scans s' s'' m) :
    Scans s s'' (l ++ m) where
  foundROQuantity := by
    rw [h'.foundROQuantity, h.foundROQuantity, List.filter_append, total_append, add_assoc]
  worstROPrice := by
    rw [h'.worstROPrice, h.worstROPrice, List.filter_append, List.getLast?_append]
    cases (m.filter isRO).getLast? <;> rfl
  totalQuantity := by rw [h'.totalQuantity, h.totalQuantity, total_append, add_assoc]
  orders := by rw [h'.orders, h.orders, List.append_assoc]

theorem foldl_scans (s : WorstROScan) (l : List SubaccountOrderData) :
    Scans s (l.foldl WorstROScan.process s) l := by
  induction l generalizing s with
  | nil => constructor <;> simp
  | cons d l ih => exact (process_scans s d).trans (ih (s.process d))

section Passes

variable {isBuy : Bool} {side : OrderSide} {price : LegacyDec}

/-- The second pass may stop: what it leaves out is worse priced than any reduce-only
    order. -/
theorem covers_of_stop (hside : Consistent side)
    (hreach : ReachesWorse isBuy (side.orders.map storedAt))
    {front back : List SubaccountOrderData}
    (hsplit : worse isBuy side.orders price = front ++ back) {s : WorstROScan}
    (hscans : Scans (WorstROScan.start
      (getEqualOrBetterPricedSubaccountOrderResults side.orders isBuy price)) s front)
    (hstop : ∀ a rest, back = a :: rest →
      s.stop side.metadata.aggregateReduceOnlyQuantity a = true) :
    ∀ r ∈ side.orders, isRO r = true → ∀ x ∈ side.orders, rankOf isBuy x ≤ rankOf isBuy r →
      x ∈ found isBuy side.orders price ++ front := by
  have hperm : (found isBuy side.orders price ++ front ++ back).Perm side.orders := by
    rw [List.append_assoc, ← hsplit]
    exact found_append_worse_perm hside.sorted hreach
  have hranked : Ranked isBuy (front ++ back) := by
    rw [← hsplit]
    exact (hreach.ranked hside.sorted).sublist List.filter_sublist
  intro r hr hro x hx hrank
  rcases List.mem_append.mp (hperm.mem_iff.mpr hx) with hx' | hx'
  · exact hx'
  exfalso
  obtain ⟨a, rest, rfl⟩ := List.exists_cons_of_ne_nil (List.ne_nil_of_mem hx')
  have hax : rankOf isBuy a ≤ rankOf isBuy x := by
    rcases List.mem_cons.mp hx' with rfl | hmem
    · exact le_refl _
    · exact (List.pairwise_cons.mp (List.pairwise_append.mp hranked).2.1).1 x hmem
  have hstop := hstop a rest rfl
  simp only [WorstROScan.stop, Bool.and_eq_true, decide_eq_true_eq] at hstop
  obtain ⟨hall, hprice⟩ := hstop
  -- all reduce-only quantity is found, so no reduce-only order is left out
  have hnone : (a :: rest).filter isRO = [] := by
    refine @eq_nil_of_total_le_zero _ _ _ quantityOf _ _ _ ?_ ?_
    · intro o ho
      exact hside.positive o
        (hperm.mem_iff.mp (List.mem_append_right _ (List.mem_of_mem_filter ho)))
    · have hsum := @total_perm _ _ _ quantityOf _ _ (hperm.filter isRO)
      rw [List.filter_append, List.filter_append, total_append, total_append] at hsum
      rw [hscans.foundROQuantity, hside.reduceOnly, ← hsum, WorstROScan.start,
        (eobResults_found isBuy side.orders price).reduceOnly] at hall
      simp only [newSubaccountOrderResults, zero_add] at hall
      exact (add_le_iff_nonpos_right _).mp hall
  rcases List.mem_append.mp (hperm.mem_iff.mpr hr) with hr' | hback
  · rcases List.mem_append.mp hr' with hfound | hfront
    · -- found by the first pass, where nothing is worse than the new price
      have hrp := ((mem_found (hreach.ranked hside.sorted)).mp hfound).2
      have hxw : x ∈ worse isBuy side.orders price := by
        rw [hsplit]
        exact List.mem_append_right _ hx'
      exact absurd (hrank.trans hrp) (not_le.mpr (mem_worse.mp hxw).2)
    · have hmem : r ∈ front.filter isRO := List.mem_filter.mpr ⟨hfront, hro⟩
      obtain ⟨w, hw⟩ : ∃ w, (front.filter isRO).getLast? = some w :=
        Option.isSome_iff_exists.mp (List.getLast?_isSome.mpr (List.ne_nil_of_mem hmem))
      have hwf : w ∈ front := List.mem_of_mem_filter (List.mem_of_getLast? hw)
      rw [hscans.worstROPrice, hw, Option.map_some, Option.getD_some] at hprice
      have hrw : rankOf isBuy r ≤ rankOf isBuy w := by
        rcases eq_or_rel_getLast ((List.pairwise_append.mp hranked).1.sublist
          List.filter_sublist) hw hmem with rfl | hle
        · exact le_rfl
        · exact hle
      have hwa := (List.pairwise_append.mp hranked).2.2 w hwf a List.mem_cons_self
      have hne : rankOf isBuy w ≠ rankOf isBuy a := fun heq =>
        hprice (priceRank_inj.mp heq).symm
      exact absurd (hax.trans (hrank.trans hrw)) (not_le.mpr (lt_of_le_of_ne hwa hne))
  · have hmem : r ∈ (a :: rest).filter isRO := List.mem_filter.mpr ⟨hback, hro⟩
    rw [hnone] at hmem
    exact nomatch hmem

/-- **SECOND PASS**: the list to cancel from is sorted, holds orders of the side and comes with
    its quantity. It is what the first pass found and a front part of what the second goes
    through. -/
theorem worstOrders_spec (S : SliceStable) {quantity : LegacyDec}
    (h : getWorstROAndAllBetterPricedSubaccountOrders S side.orders
      side.metadata.aggregateReduceOnlyQuantity isBuy
      (getEqualOrBetterPricedSubaccountOrderResults side.orders isBuy price) = (l, quantity)) :
    (l.Pairwise (Later (rankOf isBuy) isRO) ∧ l ⊆ side.orders ∧
      quantity = total quantityOf l) ∧
    ∃ front back s, resumed isBuy side.orders price = front ++ back ∧
      Scans (WorstROScan.start
        (getEqualOrBetterPricedSubaccountOrderResults side.orders isBuy price)) s front ∧
      (∀ a rest, back = a :: rest →
        s.stop side.metadata.aggregateReduceOnlyQuantity a = true) ∧
      l.Perm (found isBuy side.orders price ++ front) := by
  simp only [getWorstROAndAllBetterPricedSubaccountOrders, startOrderKey_eq,
    Prod.mk.injEq] at h
  obtain ⟨hl, hquantity⟩ := h
  obtain ⟨front, back, hsplit, hscan, hstop⟩ := scanUntil_split
    (WorstROScan.stop side.metadata.aggregateReduceOnlyQuantity) WorstROScan.process
    (WorstROScan.start (getEqualOrBetterPricedSubaccountOrderResults side.orders isBuy price))
    (resumed isBuy side.orders price)
  have hscans := foldl_scans (WorstROScan.start
    (getEqualOrBetterPricedSubaccountOrderResults side.orders isBuy price)) front
  have heob := eobResults_found isBuy side.orders price
  rw [resumed] at hscan
  rw [hscan] at hl hquantity
  -- the orders of the first pass stand first, the vanilla ones before the others
  have hperm : l.Perm (found isBuy side.orders price ++ front) := by
    rw [← hl, hscans.orders, WorstROScan.start, heob.vanillaOrders, heob.reduceOnlyOrders]
    refine (S.perm isBuy _).trans (List.Perm.append_right front ?_)
    exact List.perm_append_comm.trans (List.filter_append_perm isRO _)
  have hfront : front.Sublist (resumed isBuy side.orders price) := by
    rw [hsplit]
    exact List.sublist_append_left front back
  refine ⟨⟨?_, ?_, ?_⟩, front, back, _, hsplit, hscans, hstop, hperm⟩
  · rw [← hl]
    exact (S.ordered isBuy _).imp ordered_iff.mp
  · intro x hx
    rcases List.mem_append.mp (hperm.mem_iff.mp hx) with hx | hx
    · exact (found_subset hx).1
    · exact mem_visited.mp (resumed_sublist.subset (hfront.subset hx))
  · rw [total_perm hperm, total_append, ← hquantity, hscans.totalQuantity, WorstROScan.start,
      eobResults_total]

end Passes

/-! ## Cancelling -/

variable {E : OrderChecks} {data : List SubaccountOrderData}

theorem cancelReduceOnlySubaccountOrders_ok {kept : List SubaccountOrderData}
    {quantity : LegacyDec}
    (h : cancelReduceOnlySubaccountOrders E orders data = .ok (kept, quantity)) :
    kept = orders.filter (fun o => decide (∀ d ∈ data, o.key ≠ d.key)) ∧
      quantity = total quantityOf data := by
  have general : ∀ (data orders : List SubaccountOrderData) (q : LegacyDec),
      data.foldlM (fun acc d =>
        if E.orderExists d.order.price d.orderHash then
          (.ok (acc.1.filter (fun o => o.key ≠ d.key), acc.2 + d.order.quantity) :
            Except OrderError (List SubaccountOrderData × LegacyDec))
        else .error .orderDoesntExist) (orders, q) = .ok (kept, quantity) →
      kept = orders.filter (fun o => decide (∀ d ∈ data, o.key ≠ d.key)) ∧
        quantity = q + total quantityOf data := by
    intro data
    induction data with
    | nil =>
      intro orders q h
      cases h
      simp
    | cons d data ih =>
      intro orders q h
      rw [List.foldlM_cons] at h
      by_cases hexists : E.orderExists d.order.price d.orderHash = true
      · rw [if_pos hexists] at h
        obtain ⟨hkept, hquantity⟩ := ih _ _ h
        refine ⟨?_, ?_⟩
        · rw [hkept, List.filter_filter]
          refine List.filter_congr fun o _ => ?_
          rw [Bool.eq_iff_iff]
          simp only [Bool.and_eq_true, decide_eq_true_eq, List.forall_mem_cons]
          exact and_comm
        · rw [hquantity, total_cons, add_assoc]
      · rw [if_neg hexists] at h
        exact nomatch h
  obtain ⟨hkept, hquantity⟩ := general data orders 0 h
  exact ⟨hkept, by rw [hquantity, zero_add]⟩

theorem cancelReduceOnlyOrders_ok {side side' : OrderSide}
    (h : cancelReduceOnlyOrders E side data = .ok side') :
    side'.orders = side.orders.filter (fun o => decide (∀ d ∈ data, o.key ≠ d.key)) := by
  rw [cancelReduceOnlyOrders] at h
  by_cases hnil : data = []
  · rw [if_pos hnil] at h
    cases h
    simp [hnil]
  · rw [if_neg hnil] at h
    cases hc : cancelReduceOnlySubaccountOrders E side.orders data with
    | error e => rw [hc] at h; exact nomatch h
    | ok cancelled =>
      obtain ⟨kept, quantity⟩ := cancelled
      rw [hc] at h
      cases h
      exact (cancelReduceOnlySubaccountOrders_ok hc).1

section Resolution

variable {E : OrderChecks} {side side' : OrderSide} {newOrder : DerivativeOrder LegacyDec}
  {Q : LegacyDec}

/-- Each reduce-only order that is kept fits, and the new order with it. -/
structure MakesRoom (isBuy : Bool) (orders kept : List SubaccountOrderData)
    (price quantity Q : LegacyDec) : Prop where
  nodup : kept.Nodup
  subset : kept ⊆ orders
  room : ∀ r ∈ kept, isRO r = true → priceRank isBuy price ≤ rankOf isBuy r →
    quantity + ahead (rankOf isBuy) quantityOf kept (rankOf isBuy r) ≤ Q

/-- **ENOUGH IS CANCELLED** from the back of the side. -/
theorem cancelMinimum_makesRoom (hside : Consistent side)
    (hfinds : ∀ r ∈ side.orders, isRO r = true → ∀ x ∈ side.orders,
      isWorse newOrder.orderType.isBuy x.order.price r.order.price = false →
        x ∈ (getWorstROAndAllBetterPricedSubaccountOrders E.sliceStable side.orders
          side.metadata.aggregateReduceOnlyQuantity newOrder.orderType.isBuy
          (getEqualOrBetterPricedSubaccountOrderResults side.orders newOrder.orderType.isBuy
            newOrder.orderInfo.price)).1)
    (h : cancelMinimumReduceOnlyOrders E side newOrder.orderType.isBuy Q
      (getEqualOrBetterPricedSubaccountOrderResults side.orders newOrder.orderType.isBuy
        newOrder.orderInfo.price) (some newOrder) = .ok side') :
    MakesRoom newOrder.orderType.isBuy side.orders side'.orders newOrder.orderInfo.price
      newOrder.orderInfo.quantity Q := by
  generalize hisBuy : newOrder.orderType.isBuy = isBuy at h hfinds ⊢
  have hnodup := nodup_of_sorted hside.sorted
  rw [cancelMinimumReduceOnlyOrders] at h
  cases hworst : getWorstROAndAllBetterPricedSubaccountOrders E.sliceStable side.orders
      side.metadata.aggregateReduceOnlyQuantity isBuy
      (getEqualOrBetterPricedSubaccountOrderResults side.orders isBuy newOrder.orderInfo.price) with
  | mk l quantity =>
    obtain ⟨⟨hlater, hsubset, htotal⟩, -⟩ :=
      worstOrders_spec E.sliceStable hworst
    rw [hworst] at hfinds
    have hcovers : ∀ r ∈ side.orders, isRO r = true → ∀ x ∈ side.orders,
        rankOf isBuy x ≤ rankOf isBuy r → x ∈ l := fun r hr hro x hx hle =>
      hfinds r hr hro x hx (Bool.eq_false_iff.mpr (mt isWorse_iff.mp (not_lt.mpr hle)))
    have hnonneg : ∀ x ∈ l, 0 ≤ quantityOf x := fun x hx => hside.nonneg x (hsubset hx)
    simp only [hworst, Option.map_some, Option.getD_some, Option.any_some] at h
    by_cases hexcess : 0 < quantity - Q + newOrder.orderInfo.quantity
    · rw [if_neg (not_not.mpr hexcess)] at h
      have hkept := cancelReduceOnlyOrders_ok h
      have hsub : side'.orders ⊆ side.orders := by
        rw [hkept]
        exact List.filter_subset_self _
      have hnodup' : side'.orders.Nodup := by
        rw [hkept]
        exact hnodup.filter _
      refine ⟨hnodup', hsub, ?_⟩
      intro r hr hro hrank
      obtain ⟨back, hl, hend⟩ := passed_split quantityOf
        (fun d : SubaccountOrderData =>
          isBetter newOrder.orderType.isBuy d.order.price newOrder.orderInfo.price)
        (quantity - Q + newOrder.orderInfo.quantity) 0 l
      generalize hfront : passed quantityOf _ _ 0 l = front at hl hend
      have hdropped : ∀ x ∈ front, isRO x = true → x ∉ side'.orders := by
        intro x hx hxro hmem
        rw [hkept, List.mem_filter, decide_eq_true_eq] at hmem
        refine hmem.2 x (List.mem_filter.mpr ⟨?_, hxro⟩) rfl
        rw [← hfront] at hx
        exact hx
      have hback : r ∈ back := by
        have hmem := hcovers r (hsub hr) hro r (hsub hr) (le_refl _)
        rw [hl] at hmem
        rcases List.mem_append.mp hmem with hmem | hmem
        · exact absurd hr (hdropped r hmem hro)
        · exact hmem
      have hahead : ahead (rankOf isBuy) quantityOf side'.orders (rankOf isBuy r) ≤
          total quantityOf back := by
        rw [hl] at hlater
        refine ahead_kept_le hlater hnodup' hdropped hback hro ?_ ?_
        · intro x hx hxr
          rw [← hl]
          exact hcovers r (hsub hr) hro x (hsub hx) hxr
        · intro x hx
          refine hnonneg x ?_
          rw [hl]
          exact List.mem_append_right front hx
      rcases hend with hcovered | hstop
      · rw [htotal, hl, total_append, zero_add] at hcovered
        simp only [LegacyDec.le_iff_raw, LegacyDec.raw_add, LegacyDec.raw_sub] at hcovered hahead ⊢
        omega
      · -- the loop stopped at a better price than that of the new order
        obtain ⟨a, rest, rfl⟩ := List.exists_cons_of_ne_nil (List.ne_nil_of_mem hback)
        have hbetter := isBetter_iff.mp (hstop a rest rfl)
        rw [hisBuy] at hbetter
        have har : rankOf isBuy r ≤ rankOf isBuy a := by
          rcases List.mem_cons.mp hback with rfl | hmem
          · exact le_refl _
          · rw [hl] at hlater
            rcases (List.pairwise_cons.mp (List.pairwise_append.mp hlater).2.1).1 r hmem with
              hlt | ⟨heq, _⟩
            · exact le_of_lt hlt
            · exact le_of_eq heq.symm
        exact absurd (lt_of_le_of_lt (hrank.trans har) hbetter) (lt_irrefl _)
    · rw [if_pos hexcess] at h
      cases h
      refine ⟨hnodup, List.Subset.refl _, ?_⟩
      intro r hr hro _
      have hahead : ahead (rankOf isBuy) quantityOf side.orders (rankOf isBuy r) ≤
          total quantityOf l := by
        refine total_le_of_subset (hnodup.filter _) ?_ hnonneg
        intro x hx
        obtain ⟨hmem, hxr⟩ := List.mem_filter.mp hx
        exact hcovers r hr hro x hmem (of_decide_eq_true hxr)
      rw [htotal] at hexcess
      simp only [LegacyDec.lt_iff_raw, LegacyDec.le_iff_raw, LegacyDec.raw_add,
        LegacyDec.raw_sub, LegacyDec.raw_zero] at hexcess hahead ⊢
      omega

theorem cancelWorse_makesRoom (hside : Consistent side)
    (hfinds : 0 < side.metadata.aggregateReduceOnlyQuantity -
        (getEqualOrBetterPricedSubaccountOrderResults side.orders newOrder.orderType.isBuy
          newOrder.orderInfo.price).cumulativeBetterReduceOnlyQuantity →
      ∀ r ∈ side.orders, isRO r = true → ∀ x ∈ side.orders,
        isWorse newOrder.orderType.isBuy x.order.price r.order.price = false →
          x ∈ (getWorstROAndAllBetterPricedSubaccountOrders E.sliceStable side.orders
            side.metadata.aggregateReduceOnlyQuantity newOrder.orderType.isBuy
            (getEqualOrBetterPricedSubaccountOrderResults side.orders
              newOrder.orderType.isBuy newOrder.orderInfo.price)).1)
    (h : cancelWorseOrdersToCancelIfRequired E side newOrder Q
      (getEqualOrBetterPricedSubaccountOrderResults side.orders newOrder.orderType.isBuy
        newOrder.orderInfo.price) = .ok side') :
    MakesRoom newOrder.orderType.isBuy side.orders side'.orders newOrder.orderInfo.price
      newOrder.orderInfo.quantity Q := by
  simp only [cancelWorseOrdersToCancelIfRequired] at h
  split at h
  · rename_i hmax
    cases h
    refine ⟨nodup_of_sorted hside.sorted, List.Subset.refl _, ?_⟩
    intro r hr hro hrank
    exact absurd (no_worse_of_max_le_zero hside hmax hr hro) (not_lt.mpr hrank)
  · next hmax => exact cancelMinimum_makesRoom hside (hfinds (not_le.mp hmax)) h

variable {order : DerivativeOrder LegacyDec}

/-- The resized order is the same order, with a quantity the position still allows. -/
theorem resizeNewReduceOnly_ok {resized : DerivativeOrder LegacyDec}
    {eob : SubaccountOrderResults} (hpos : 0 < order.orderInfo.quantity)
    (h : resizeNewReduceOnlyIfRequired order Q eob = .ok resized) :
    resized.orderType = order.orderType ∧ resized.margin = order.margin ∧
      resized.orderInfo.price = order.orderInfo.price ∧ 0 < resized.orderInfo.quantity ∧
      resized.orderInfo.quantity +
        (eob.cumulativeEOBReduceOnlyQuantity + eob.cumulativeEOBVanillaQuantity) ≤ Q := by
  simp only [resizeNewReduceOnlyIfRequired] at h
  split at h
  · exact nomatch h
  rename_i hreducible
  rw [not_not] at hreducible
  have hmin := min_le_right order.orderInfo.quantity
    (Q - (eob.cumulativeEOBReduceOnlyQuantity + eob.cumulativeEOBVanillaQuantity))
  split at h
  · rename_i hle
    cases h
    exact ⟨rfl, rfl, rfl, hpos, le_sub_iff_add_le.mp (hle.trans hmin)⟩
  · rename_i hlt
    simp only [resizeReduceOnlyOrder] at h
    split at h
    · exact nomatch h
    split at h
    · rename_i hdecrement
      exact absurd (sub_nonpos.mp hdecrement) hlt
    · cases h
      exact ⟨rfl, rfl, rfl, lt_min hpos hreducible, le_sub_iff_add_le.mp hmin⟩

variable {order' : DerivativeOrder LegacyDec} {position : Position LegacyDec}

/-- Room has been made for an order that is accepted. -/
theorem resolveReduceOnlyConflicts_ok (hside : Consistent side)
    (hresolves : Resolves E side order position.quantity)
    (hopposing : position.isLong ≠ order.orderType.isBuy) (hpos : 0 < order.orderInfo.quantity)
    (h : resolveReduceOnlyConflicts E order side (some position) = .ok (order', side')) :
    (order'.orderType = order.orderType ∧ order'.margin = order.margin ∧
      order'.orderInfo.price = order.orderInfo.price ∧ 0 < order'.orderInfo.quantity) ∧
      MakesRoom order.orderType.isBuy side.orders side'.orders order.orderInfo.price
        order'.orderInfo.quantity position.quantity ∧
      (order.isReduceOnly = true → order'.orderInfo.quantity +
        ahead (rankOf order.orderType.isBuy) quantityOf side.orders
          (priceRank order.orderType.isBuy order.orderInfo.price) ≤ position.quantity) := by
  simp only [resolveReduceOnlyConflicts, if_neg hopposing] at h
  split at h
  · -- everything fits, the new order included
    rename_i hfits
    cases h
    rw [not_lt, hside.reduceOnly, hside.vanilla, add_assoc,
      total_filter_add_total_filter_not (fun o : SubaccountOrderData =>
        o.order.isReduceOnly)] at hfits
    have hroom : ∀ i, order.orderInfo.quantity +
        ahead (rankOf order.orderType.isBuy) quantityOf side.orders i ≤ position.quantity :=
      fun i => (add_le_add_right (ahead_le_total hside.nonneg i) _).trans hfits
    exact ⟨⟨rfl, rfl, rfl, hpos⟩, ⟨nodup_of_sorted hside.sorted, List.Subset.refl _,
      fun r _ _ _ => hroom _⟩, fun _ => hroom _⟩
  · next hconflict =>
    obtain ⟨hfirst, hsecond⟩ := hresolves (not_not.mp hconflict)
    cases hro : order.isReduceOnly with
    | false =>
      simp only [hro, Bool.false_eq_true, if_false] at h
      obtain ⟨resized, hresize, hrest⟩ := Transition.exists_of_bind_eq_ok h
      cases hresize
      obtain ⟨kept, hcancel, hpair⟩ := Transition.exists_of_bind_eq_ok hrest
      cases hpair
      exact ⟨⟨rfl, rfl, rfl, hpos⟩, cancelWorse_makesRoom hside hsecond hcancel,
        fun hfalse => nomatch hfalse⟩
    | true =>
      simp only [hro, if_true] at h
      obtain ⟨resized, hresize, hrest⟩ := Transition.exists_of_bind_eq_ok h
      obtain ⟨kept, hcancel, hpair⟩ := Transition.exists_of_bind_eq_ok hrest
      obtain ⟨rfl, rfl⟩ : resized = order' ∧ kept = side' := by
        cases hpair
        exact ⟨rfl, rfl⟩
      obtain ⟨htype, hmargin, hprice, hpos', hle⟩ := resizeNewReduceOnly_ok hpos hresize
      have hroom : MakesRoom resized.orderType.isBuy side.orders kept.orders
          resized.orderInfo.price resized.orderInfo.quantity position.quantity := by
        refine cancelWorse_makesRoom (E := E) hside ?_ ?_
        · rwa [htype, hprice]
        · rwa [htype, hprice]
      rw [htype, hprice] at hroom
      refine ⟨⟨htype, hmargin, hprice, hpos'⟩, hroom, fun _ => ?_⟩
      rwa [eobResults_total, total_found hside.sorted
        (fun o ho hw => mem_results.mp (hfirst hro o ho hw))] at hle

/-! ## Accepting an order -/

/-- An order that is not conditional and accepted went through the resolution. -/
theorem ensureValidDerivativeOrder_ok {position : Option (Position LegacyDec)}
    {r : DerivativeOrder LegacyDec × OrderSide}
    (hconditional : order.orderType.isConditional = false)
    (h : ensureValidDerivativeOrder E order side position = .ok r) :
    resolveReduceOnlyConflicts E order side position = .ok r := by
  simp only [ensureValidDerivativeOrder, hconditional, Bool.false_eq_true, if_false] at h
  split at h
  · exact nomatch h
  obtain ⟨_, _, h⟩ := Transition.exists_of_bind_eq_ok h
  split at h
  · exact nomatch h
  split at h
  · exact nomatch h
  exact h

/-- The new order as it stands in the index. -/
def newData (order : DerivativeOrder LegacyDec) (orderHash : Hash) : SubaccountOrderData :=
  { order := { price := order.orderInfo.price, quantity := order.orderInfo.quantity,
               isReduceOnly := order.isReduceOnly }
    orderHash := orderHash }

/-- The side once an accepted order is added to it. -/
def added (side : OrderSide) (order : DerivativeOrder LegacyDec) (orderHash : Hash) :
    OrderSide :=
  side.setNewDerivativeLimitOrderWithMetadata (newDerivativeLimitOrder order orderHash)

/-- **ACCEPTED ORDERS**: when the passes find what they look for, every reduce-only order
    stays executable, the new one included. -/
theorem accepted_executable (hside : Consistent side)
    (hresolves : Resolves E side order position.quantity)
    (hopposing : position.isLong ≠ order.orderType.isBuy)
    (hconditional : order.orderType.isConditional = false)
    (hpos : 0 < order.orderInfo.quantity)
    (hexec : Executable order.orderType.isBuy position.quantity side.orders)
    (h : ensureValidDerivativeOrder E order side (some position) = .ok (order', side'))
    (orderHash : Hash) :
    Executable order.orderType.isBuy position.quantity (added side' order' orderHash).orders := by
  rw [executable_iff] at hexec ⊢
  obtain ⟨⟨htype, hmargin, hprice, hpos'⟩, hroom, hnew⟩ := resolveReduceOnlyConflicts_ok
    hside hresolves hopposing hpos (ensureValidDerivativeOrder_ok hconditional h)
  have hle := @ahead_le_of_subset _ _ _ _ _ _ (rankOf order.orderType.isBuy) _ _ _ _
    hroom.nodup hroom.subset hside.nonneg
  refine Fits.perm ?_ (List.perm_orderedInsert _ (newData order' orderHash) _).symm
  have hrank : rankOf order.orderType.isBuy (newData order' orderHash) =
      priceRank order.orderType.isBuy order.orderInfo.price := by
    rw [← hprice]
    rfl
  intro r hr hro
  rcases List.mem_cons.mp hr with rfl | hr
  · -- the new order was cut to what the orders ahead of it leave
    have hreduce : order'.isReduceOnly = order.isReduceOnly := by
      rw [DerivativeOrder.isReduceOnly, DerivativeOrder.isReduceOnly, hmargin]
    rw [ahead_cons, if_pos (le_refl _), hrank]
    exact (add_le_add_right (hle _) _).trans (hnew (hreduce.symm.trans hro))
  · rw [ahead_cons, hrank]
    by_cases hpr : priceRank order.orderType.isBuy order.orderInfo.price ≤
        rankOf order.orderType.isBuy r
    · rw [if_pos hpr]
      exact hroom.room r hr hro hpr
    · rw [if_neg hpr, zero_add]
      exact (hle _).trans (hexec r (hroom.subset hr) hro)

end Resolution

/-- **KEYS IN PRICE ORDER**: a side behind whose keys the iteration reaches every worse price
    is read completely, for every new order. -/
theorem resolves_of_reachesWorse (E : OrderChecks) {side : OrderSide} (hside : Consistent side)
    (order : DerivativeOrder LegacyDec)
    (hreach : ReachesWorse order.orderType.isBuy (side.orders.map storedAt))
    (positionQuantity : LegacyDec) : Resolves E side order positionQuantity := by
  intro _
  have hrank : ∀ {p q : LegacyDec}, isWorse order.orderType.isBuy p q = false →
      priceRank order.orderType.isBuy p ≤ priceRank order.orderType.isBuy q := fun hw =>
    not_lt.mp (mt isWorse_iff.mpr (Bool.eq_false_iff.mp hw))
  refine ⟨?_, ?_⟩
  · intro _ o ho hw
    exact mem_results.mpr ((mem_found (hreach.ranked hside.sorted)).mpr ⟨ho, hrank hw⟩)
  · intro _ r hr hro o ho hw
    obtain ⟨-, front, back, s, hsplit, hscans, hstop, hperm⟩ :=
      worstOrders_spec E.sliceStable rfl
    rw [resumed_eq hside.sorted hreach] at hsplit
    exact hperm.mem_iff.mpr (covers_of_stop hside hreach hsplit hscans hstop r hr hro o ho
      (hrank hw))

end ExchangeReduceOnly
