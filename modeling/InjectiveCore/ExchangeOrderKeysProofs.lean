import InjectiveCore.ExchangeReduceOnlyProofs

/-!
# Order keys — when resolving reduce-only conflicts can be trusted

The two passes of the resolution read the orders of a side in the order of their keys. What
they have to find is `Resolves`; whether they do depends on the keys.

- `reduce_only_kept`: an accepted order keeps every reduce-only order executable if the passes
  found what they look for; and they do on a side with prices below `10 ^ 32`, for buys
  provided no hash is zero.
- `top_price_hides_order`: an order at `10 ^ 32`, the highest price that is accepted, has
  a digit too many, sorts below cheaper orders and breaks the resolution.
-/

namespace ExchangeOrderKeys

open DecArith ExchangePosition ExchangeFees ExchangeDerivativeFill ExchangeDerivativeHold
open ExchangeSubaccountOrders ExchangeReduceOnly PriorityCancel

/-! ## The bytes of a key -/

theorem length_hashBytes (h : Hash) : (ByteKey.bigEndian 256 32 h.toNat).length = 32 :=
  ByteKey.length_bigEndian (by decide) (lt_of_lt_of_eq h.isLt (by norm_num))

variable {price : LegacyDec} {d : ℕ}

theorem digit_of_mem_decimalBytes {w n : ℕ} (hd : d ∈ decimalBytes w n) : 48 ≤ d ∧ d ≤ 57 := by
  obtain ⟨x, hx, rfl⟩ := List.mem_map.mp hd
  have := ByteKey.lt_of_mem_bigEndian (by decide) hx
  omega

theorem lt_255_of_mem_getPaddedPrice (hd : d ∈ getPaddedPrice price) : d < 255 := by
  rcases List.mem_append.mp hd with hd | hd
  · exact (digit_of_mem_decimalBytes hd).2.trans_lt (by decide)
  · rcases List.mem_cons.mp hd with rfl | hd
    · decide
    · exact (digit_of_mem_decimalBytes hd).2.trans_lt (by decide)

theorem key_le_255 {h : Hash} (hd : d ∈ getSubaccountOrderIterationKey price h) : d ≤ 255 := by
  rcases List.mem_append.mp hd with hd | hd
  · exact (lt_255_of_mem_getPaddedPrice hd).le
  · exact Nat.le_of_lt_succ (ByteKey.lt_of_mem_bigEndian (by decide) hd)

variable {n : ℕ} {w : ℕ}

theorem decimalBytes_lt {m : ℕ} (hm : m < 10 ^ w) (h : n < m) :
    decimalBytes w n < decimalBytes w m :=
  List.map_lt (fun _ _ h => Nat.add_lt_add_left h 48) (ByteKey.bigEndian_lt (by decide) hm h)

theorem length_decimalBytes (h : n < 10 ^ w) : (decimalBytes w n).length = w := by
  rw [decimalBytes, List.length_map, ByteKey.length_bigEndian (by decide) h]

/-- The first price that needs 33 digits before the point. -/
def priceBound : LegacyDec := ⟨10 ^ 50⟩

theorem units_lt (h : price < priceBound) : price.raw.toNat / LegacyDec.precision < 10 ^ 32 := by
  have hraw : price.raw < 10 ^ 50 := h
  rw [Nat.div_lt_iff_lt_mul LegacyDec.precision_pos, LegacyDec.precision]
  omega

theorem length_getPaddedPrice (h : price < priceBound) : (getPaddedPrice price).length = 51 := by
  have hmod : price.raw.toNat % LegacyDec.precision < 10 ^ 18 :=
    Nat.mod_lt _ LegacyDec.precision_pos
  rw [getPaddedPrice, List.length_append, List.length_cons,
    length_decimalBytes (units_lt h), length_decimalBytes hmod]

/-- The whole units of a price. -/
def units (p : LegacyDec) : ℕ := p.raw.toNat / LegacyDec.precision

/-- The number of digits before the point: 32, or more for a longer price. -/
def width (n : ℕ) : ℕ := max 32 (Nat.digits 10 n).length

/-- The longer `b` sorts before `a`, since its leading digits are below `a`. -/
def Outranks (a b : ℕ) : Prop := width a < width b ∧ b / 10 ^ (width b - width a) < a

instance (a b : ℕ) : Decidable (Outranks a b) := inferInstanceAs (Decidable (_ ∧ _))

theorem length_digits (n : ℕ) : (ByteKey.bigEndian 10 32 n).length = width n := by
  rw [ByteKey.bigEndian, List.length_leftpad, List.length_reverse]
  rfl

variable {a b : ℕ}

theorem width_mono (h : a ≤ b) : width a ≤ width b :=
  max_le_max_left 32 (Nat.le_length_digits_le 10 a b h)

theorem width_le_iff : width n ≤ 32 ↔ n < 10 ^ 32 := by
  rw [width, max_le_iff, Nat.digits_length_le_iff (by decide)]
  exact and_iff_right (le_refl 32)

/-- Where the digits of `a` meet the leading digits of a longer `b`. -/
theorem leading_cases (hw : width a < width b) :
    (b / 10 ^ (width b - width a) < a ∧ ∀ x y,
      ByteKey.Precedes (decimalBytes 32 b ++ x) (decimalBytes 32 a ++ y)) ∨
    (a ≤ b / 10 ^ (width b - width a) ∧ ∀ x y,
      ByteKey.Precedes (decimalBytes 32 a ++ 46 :: x) (decimalBytes 32 b ++ y)) := by
  have hdigit : ∀ n, ∀ d ∈ ByteKey.bigEndian 10 32 n, d < 10 :=
    fun n d hd => ByteKey.lt_of_mem_bigEndian (by decide) hd
  have hlead := ByteKey.value_take (by decide) (hdigit b) (width a)
  rw [ByteKey.value_bigEndian, length_digits] at hlead
  have hlen : ((ByteKey.bigEndian 10 32 b).take (width a)).length =
      (ByteKey.bigEndian 10 32 a).length := by
    rw [List.length_take, length_digits, length_digits, min_eq_left hw.le]
  have hsplit := List.take_append_drop (width a) (ByteKey.bigEndian 10 32 b)
  have hdigit' := fun d hd => hdigit b d (List.mem_of_mem_take (i := width a) hd)
  rw [← hlead]
  rcases lt_trichotomy (ByteKey.value 10 ((ByteKey.bigEndian 10 32 b).take (width a))) a
    with hlt | heq | hgt
  · left
    refine ⟨hlt, ?_⟩
    intro x y
    have hlist := ByteKey.lt_of_value_lt (by decide) hlen hdigit' (hdigit a)
      (by rwa [ByteKey.value_bigEndian])
    have h := ((ByteKey.precedes_of_lt hlen hlist).append
      ((ByteKey.bigEndian 10 32 b).drop (width a)) []).map_add 48
    rw [hsplit, List.append_nil] at h
    exact h.append x y
  · right
    refine ⟨heq.ge, ?_⟩
    intro x y
    -- the digits agree, and the point is below the next digit
    have hlist : (ByteKey.bigEndian 10 32 b).take (width a) = ByteKey.bigEndian 10 32 a := by
      refine List.reverse_injective (Nat.ofDigits_inj_of_len_eq (b := 10) (by decide) ?_
        (fun d hd => hdigit' d (List.mem_reverse.mp hd))
        (fun d hd => hdigit a d (List.mem_reverse.mp hd)) ?_)
      · rw [List.length_reverse, List.length_reverse, hlen]
      · exact heq.trans (ByteKey.value_bigEndian 10 32 a).symm
    cases hdrop : (ByteKey.bigEndian 10 32 b).drop (width a) with
    | nil =>
      have hnone := congrArg List.length hdrop
      rw [List.length_drop, length_digits, List.length_nil] at hnone
      omega
    | cons d rest =>
      rw [hdrop, hlist] at hsplit
      refine ⟨decimalBytes 32 a, 46, 48 + d, x, rest.map (48 + ·) ++ y, rfl, ?_, by omega⟩
      rw [decimalBytes, ← hsplit]
      simp [decimalBytes]
  · right
    refine ⟨hgt.le, ?_⟩
    intro x y
    have hlist := ByteKey.lt_of_value_lt (by decide) hlen.symm (hdigit a) hdigit'
      (by rwa [ByteKey.value_bigEndian])
    have h := ((ByteKey.precedes_of_lt hlen.symm hlist).append []
      ((ByteKey.bigEndian 10 32 b).drop (width a))).map_add 48
    rw [hsplit, List.append_nil] at h
    exact h.append (46 :: x) y

variable {p q : LegacyDec}

/-- **THE ORDER OF TWO KEYS**: the lower of two prices has the lower key, unless the other
    one has more digits and outranks it. -/
theorem padded_precedes (hp : 0 ≤ p) (h : p < q) :
    (¬Outranks (units p) (units q) → ByteKey.Precedes (getPaddedPrice p) (getPaddedPrice q)) ∧
    (Outranks (units p) (units q) → ByteKey.Precedes (getPaddedPrice q) (getPaddedPrice p)) := by
  have hraw : p.raw < q.raw := h
  have hp0 : 0 ≤ p.raw := hp
  have hlt : p.raw.toNat < q.raw.toNat := by omega
  have hle : units p ≤ units q := Nat.div_le_div_right hlt.le
  rcases (width_mono hle).eq_or_lt with hw | hw
  · refine ⟨fun _ => ?_, fun hout => absurd hout.1 (by omega)⟩
    rcases hle.eq_or_lt with heq | hlt'
    · rw [getPaddedPrice, getPaddedPrice, show p.raw.toNat / LegacyDec.precision = units q from heq]
      have hmod : ∀ r : LegacyDec, r.raw.toNat % LegacyDec.precision < 10 ^ 18 :=
        fun r => Nat.mod_lt _ LegacyDec.precision_pos
      have hfrac : p.raw.toNat % LegacyDec.precision < q.raw.toNat % LegacyDec.precision := by
        have h1 := Nat.div_add_mod p.raw.toNat LegacyDec.precision
        have h2 := Nat.div_add_mod q.raw.toNat LegacyDec.precision
        rw [show p.raw.toNat / LegacyDec.precision = q.raw.toNat / LegacyDec.precision
          from heq] at h1
        omega
      have hbytes := ByteKey.precedes_of_lt
        ((length_decimalBytes (hmod p)).trans (length_decimalBytes (hmod q)).symm)
        (decimalBytes_lt (hmod q) hfrac)
      exact (hbytes.append_left [46]).append_left _
    · have hlen : (ByteKey.bigEndian 10 32 (units p)).length =
          (ByteKey.bigEndian 10 32 (units q)).length := by
        rw [length_digits, length_digits, hw]
      have hlist := ByteKey.lt_of_value_lt (b := 10) (by decide) hlen
        (fun d hd => ByteKey.lt_of_mem_bigEndian (by decide) hd)
        (fun d hd => ByteKey.lt_of_mem_bigEndian (by decide) hd)
        (by rwa [ByteKey.value_bigEndian, ByteKey.value_bigEndian])
      exact ((ByteKey.precedes_of_lt hlen hlist).map_add 48).append _ _
  · rcases leading_cases hw with ⟨hlead, hcases⟩ | ⟨hlead, hcases⟩
    · exact ⟨fun hout => absurd ⟨hw, hlead⟩ hout, fun _ => hcases _ _⟩
    · exact ⟨fun _ => hcases _ _, fun hout => absurd hout.2 (not_lt_of_ge hlead)⟩

/-- **PRICES OF 32 DIGITS** are ordered by their padded strings. -/
theorem getPaddedPrice_lt (hp : 0 ≤ p) (hq : q < priceBound) (h : p < q) :
    getPaddedPrice p < getPaddedPrice q := by
  have hw : width (units q) ≤ 32 := width_le_iff.mpr (units_lt hq)
  have hout : ¬Outranks (units p) (units q) := fun hout =>
    absurd (hout.1.trans_le hw) (not_lt_of_ge (le_max_left _ _))
  exact ((padded_precedes hp h).1 hout).lt

/-- Keys that reach every worse price: at most 32 digits before the point, and for buys
    no zero hash. -/
theorem reachesWorse_of_lt {isBuy : Bool} {keys : List (LegacyDec × Hash)}
    (hprice : ∀ k ∈ keys, 0 ≤ k.1 ∧ k.1 < priceBound)
    (hhash : isBuy = true → ∀ k ∈ keys, k.2 ≠ 0) : ReachesWorse isBuy keys := by
  intro a ha b hb hworse
  have hlen : (getPaddedPrice a.1).length = (getPaddedPrice b.1).length := by
    rw [length_getPaddedPrice (hprice a ha).2, length_getPaddedPrice (hprice b hb).2]
  cases isBuy with
  | true =>
    have hlt : b.1 < a.1 := by simpa [isWorse] using hworse
    have hpadded := getPaddedPrice_lt (hprice b hb).1 (hprice a ha).2 hlt
    simp only [inRange, if_true, Option.bind_some, subtractBitFromPrefix]
    cases hpred : ByteKey.predecessor (ByteKey.bigEndian 256 32 a.2.toNat) with
    | none =>
      -- a hash without a predecessor is zero
      have hzero := ByteKey.value_eq_zero (b := 256) (ByteKey.eq_zero_of_predecessor hpred)
      rw [ByteKey.value_bigEndian] at hzero
      exact absurd (BitVec.eq_of_toNat_eq hzero) (hhash rfl a ha)
    | some h' =>
      rw [getSubaccountOrderIterationKey, ByteKey.predecessor_append hpred]
      exact decide_eq_true (ByteKey.append_lt_append_of_lt hlen.symm hpadded _ _)
  | false =>
    have hlt : a.1 < b.1 := by simpa [isWorse] using hworse
    have hpadded := getPaddedPrice_lt (hprice a ha).1 (hprice b hb).2 hlt
    have hkey : getSubaccountOrderIterationKey a.1 a.2 < getSubaccountOrderIterationKey b.1 b.2 :=
      ByteKey.append_lt_append_of_lt hlen hpadded _ _
    obtain ⟨s, hs, hle⟩ := ByteKey.successor_le_of_lt (by
      rw [getSubaccountOrderIterationKey, getSubaccountOrderIterationKey, List.length_append,
        List.length_append, hlen, length_hashBytes, length_hashBytes])
      (fun d hd => key_le_255 hd) hkey
    simp only [inRange, Bool.false_eq_true, if_false, Option.bind_some, addBitToPrefix, hs]
    exact decide_eq_true hle

/-! ## Accepting orders -/

/-- The keys of one side, as the store holds them. -/
structure StoredKeys where
  keys : List (LegacyDec × Hash)
  sorted : keys.Pairwise (fun a b =>
    getSubaccountOrderIterationKey a.1 a.2 < getSubaccountOrderIterationKey b.1 b.2)

/-- **REDUCE-ONLY ORDERS STAY EXECUTABLE**: an order that is accepted against a position, with
    its possibly resized quantity, leaves every reduce-only order of its side executable, itself
    included, if the resolution reads the side completely. It does so for every order on a side
    whose prices have at most 32 digits and, for buys, whose hashes are not zero. -/
theorem reduce_only_kept (E : OrderChecks) (side : OrderSide) (position : Position LegacyDec)
    (order : DerivativeOrder LegacyDec) (hside : Consistent side)
    (hopposing : position.isLong ≠ order.orderType.isBuy)
    (hconditional : order.orderType.isConditional = false)
    (hpos : 0 < order.orderInfo.quantity)
    (hexec : Executable order.orderType.isBuy position.quantity side.orders) :
    (Resolves E side order position.quantity → ∀ order' side' orderHash,
      ensureValidDerivativeOrder E order side (some position) = .ok (order', side') →
      Executable order.orderType.isBuy position.quantity
        (added side' order' orderHash).orders) ∧
    ((∀ o ∈ side.orders, 0 ≤ o.order.price ∧ o.order.price < priceBound) →
      (order.orderType.isBuy = true → ∀ o ∈ side.orders, o.orderHash ≠ 0) →
      Resolves E side order position.quantity) := by
  constructor
  · intro hresolves order' side' orderHash h
    exact accepted_executable hside hresolves hopposing hconditional hpos hexec h orderHash
  · intro hprice hhash
    refine resolves_of_reachesWorse E hside order (reachesWorse_of_lt ?_ ?_) _
    · intro k hk
      obtain ⟨o, ho, rfl⟩ := List.mem_map.mp hk
      exact hprice o ho
    · intro hbuy k hk
      obtain ⟨o, ho, rfl⟩ := List.mem_map.mp hk
      exact hhash hbuy o ho

/-- An order for one unit. -/
def unitOrderMsg (isBuy : Bool) (price margin : LegacyDec) : DerivativeOrder LegacyDec :=
  { orderInfo := { subaccountID := 0, feeRecipient := 0, price := price, quantity := one,
                   cid := "" }
    orderType := if isBuy then .buy else .sell
    margin := margin }

/-- A position against the direction. -/
def unitPosition (isBuy : Bool) (quantity : LegacyDec) : Position LegacyDec :=
  { isLong := !isBuy, quantity := quantity, entryPrice := 0, margin := 0,
    cumulativeFundingEntry := none }

/-- Insertion sort is a sort as the resolution needs it. -/
def insertionSort : SliceStable where
  sort isBuy l := l.insertionSort (fun a b => less isBuy a b = true ∨ less isBuy b a = false)
  perm isBuy l := List.perm_insertionSort _ l
  ordered isBuy l := by
    have htotal : Std.Total (fun a b : SubaccountOrderData =>
        less isBuy a b = true ∨ less isBuy b a = false) := by
      refine ⟨fun a b => ?_⟩
      cases less isBuy a b <;> simp
    have htrans : IsTrans SubaccountOrderData (fun a b =>
        less isBuy a b = true ∨ less isBuy b a = false) :=
      ⟨fun a b c hab hbc =>
        ordered_iff.mpr ((ordered_iff.mp hab).trans (ordered_iff.mp hbc))⟩
    exact List.pairwise_insertionSort _ l

/-- All checks pass. -/
def passingChecks : OrderChecks :=
  { basic := true, marginLocked := true, validPositionToReduce := true, notPaused := true,
    marginReserved := true, orderExists := fun _ _ => true, sliceStable := insertionSort }

/-- One vanilla and one reduce-only sell of one unit, in the sequence of their keys. -/
def twoSells (vanilla reduceOnly : LegacyDec) (first : Bool) : OrderSide :=
  let ro : SubaccountOrderData :=
    { order := { price := reduceOnly, quantity := one, isReduceOnly := true }, orderHash := 1 }
  let plain : SubaccountOrderData :=
    { order := { price := vanilla, quantity := one, isReduceOnly := false }, orderHash := 2 }
  { orders := if first then [ro, plain] else [plain, ro]
    metadata :=
      { vanillaLimitOrderCount := 1, reduceOnlyLimitOrderCount := 1,
        aggregateReduceOnlyQuantity := one, aggregateVanillaQuantity := one } }

/-- A third sell of one unit between the two is accepted against a long position of two, and
    the reduce-only sell behind it is cancelled. -/
theorem reduce_only_kept_sample :
    ensureValidDerivativeOrder passingChecks (unitOrderMsg false (newDec 3) one)
        (twoSells (newDec 2) (newDec 4) false) (some (unitPosition false (newDec 2))) ≠
      .ok (unitOrderMsg false (newDec 3) one, twoSells (newDec 2) (newDec 4) false) ∧
    ∀ order' side' orderHash,
      ensureValidDerivativeOrder passingChecks (unitOrderMsg false (newDec 3) one)
        (twoSells (newDec 2) (newDec 4) false) (some (unitPosition false (newDec 2))) =
          .ok (order', side') →
      Executable false (newDec 2) (added side' order' orderHash).orders := by
  have hside : Consistent (twoSells (newDec 2) (newDec 4) false) :=
    ⟨by decide +kernel, by decide +kernel, by decide +kernel, by decide +kernel⟩
  have hkept := reduce_only_kept passingChecks (twoSells (newDec 2) (newDec 4) false)
    (unitPosition false (newDec 2)) (unitOrderMsg false (newDec 3) one) hside (by decide) rfl
    (by decide) (by decide +kernel)
  exact ⟨by decide +kernel, hkept.1 (hkept.2 (by decide +kernel) nofun)⟩

/-! ## The highest price -/

/-- One vanilla sell at `2 · 10 ^ 31` and one reduce-only sell at `10 ^ 32`. -/
def topPriceSide : OrderSide := twoSells ⟨2 * 10 ^ 49⟩ ⟨10 ^ 50⟩ true

theorem topPriceSide_consistent : Consistent topPriceSide where
  sorted := by decide +kernel
  positive := by decide +kernel
  reduceOnly := by decide +kernel
  vanilla := by decide +kernel

/-- A new sell of one unit at `5 · 10 ^ 31`. -/
def topPriceOrder : DerivativeOrder LegacyDec := unitOrderMsg false ⟨5 * 10 ^ 49⟩ one

/-- The reduce-only sell at the highest price is executable against a long position of
    two. The new order is accepted and nothing is cancelled, although three units then
    stand in front of it or with it. -/
theorem top_price_hides_order :
    Consistent topPriceSide ∧
      Executable false (newDec 2) topPriceSide.orders ∧
      ensureValidDerivativeOrder passingChecks topPriceOrder topPriceSide
        (some (unitPosition false (newDec 2))) = .ok (topPriceOrder, topPriceSide) ∧
      ¬Executable false (newDec 2) (added topPriceSide topPriceOrder 3).orders := by
  refine ⟨topPriceSide_consistent, ?_, ?_, ?_⟩
  · decide +kernel
  · decide +kernel
  · decide +kernel

end ExchangeOrderKeys
