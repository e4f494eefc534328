import InjectiveCore.ExchangeOrderStoreProofs

/-!
# Order metadata is exact

Between two blocks every price level holds the sum of the fillable quantities resting
there, and the metadata of every subaccount and side counts and adds up its orders.

Inside a block this is not so: transient orders count in the metadata and in no price
level, the batch at the end of the block collects metadata deltas before it applies any,
and an order that is filled and then cancelled passes through a state in which its
metadata is reduced and its stored copy is not. `Tallied` is the invariant that survives
all of it. It speaks about the stored orders, the metadata as it will be once all deltas
are applied, and the **pending** orders: the transient ones the batch has not dealt with.

Every operation changes what one key holds, and `Tallied.move` is the one lemma about
such a change; placing, cancelling and settling an order are instances of it.
-/

namespace ExchangeOrderStore

open KeyedStore ExchangeFees ExchangeDerivativeFill ExchangeDerivativeBook
  ExchangeSubaccountOrders

namespace Stores

/-! ## What an order counts for -/

/-- The metadata of one order of a kind without its quantity. -/
def oneOrder (isReduceOnly : Bool) : SubaccountOrderbookMetadata :=
  if isReduceOnly then ⟨0, 1, 0, 0⟩ else ⟨1, 0, 0, 0⟩

/-- The metadata of a quantity of a kind. -/
def quantityOf (isReduceOnly : Bool) (quantity : LegacyDec) : SubaccountOrderbookMetadata :=
  if isReduceOnly then ⟨0, 0, quantity, 0⟩ else ⟨0, 0, 0, quantity⟩

theorem quantityOf_sub (isReduceOnly : Bool) (q q' : LegacyDec) :
    quantityOf isReduceOnly (q - q') = quantityOf isReduceOnly q - quantityOf isReduceOnly q' := by
  cases isReduceOnly with
  | true | false => simp [quantityOf, metadata_sub]

/-- What an order adds to the metadata of its side. -/
def contribution (o : LimitOrder) : SubaccountOrderbookMetadata :=
  oneOrder o.isReduceOnly + quantityOf o.isReduceOnly o.fillable

section Counts

variable (m : SubaccountOrderbookMetadata)

theorem countOrder_eq (o : LimitOrder) : countOrder m o = m + contribution o := by
  cases h : o.isReduceOnly with
  | true | false => simp [countOrder, contribution, oneOrder, quantityOf, metadata_add, h]

theorem uncountOrder_eq (o : LimitOrder) : uncountOrder m o = m - contribution o := by
  cases h : o.isReduceOnly with
  | true | false =>
    simp [uncountOrder, contribution, oneOrder, quantityOf, metadata_add, metadata_sub, h]

theorem decrementAggregate_eq (isReduceOnly : Bool) (q : LegacyDec) :
    decrementAggregate m isReduceOnly q = m - quantityOf isReduceOnly q := by
  cases isReduceOnly with
  | true | false => simp [decrementAggregate, quantityOf, metadata_sub]

theorem decrementCount_eq (isReduceOnly : Bool) :
    decrementCount m isReduceOnly = m - oneOrder isReduceOnly := by
  cases isReduceOnly with
  | true | false => simp [decrementCount, oneOrder, metadata_sub]

end Counts

theorem applyDelta_eq_add (m d : SubaccountOrderbookMetadata) : applyDelta m d = m + d := by
  refine SubaccountOrderbookMetadata.ext rfl rfl ?_ ?_
  · show (if d.aggregateReduceOnlyQuantity = 0 then _ else _) = _ + _
    split
    · next h => rw [h, add_zero]
    · rfl
  · show (if d.aggregateVanillaQuantity = 0 then _ else _) = _ + _
    split
    · next h => rw [h, add_zero]
    · rfl

/-! ## Price levels -/

variable {q : LegacyDec}

theorem unsignedDec_of_nonneg (h : 0 ≤ q) : unsignedDec q = q := by
  have hraw : 0 ≤ q.raw := h
  rw [unsignedDec, abs_of_nonneg hraw]

theorem getOrderbookPriceLevelQuantity_set (s : Stores) (key key' : LevelKey) (h : 0 ≤ q) :
    (s.setOrderbookPriceLevelQuantity key q).getOrderbookPriceLevelQuantity key' =
      if key' = key then q else s.getOrderbookPriceLevelQuantity key' := by
  simp only [getOrderbookPriceLevelQuantity, setOrderbookPriceLevelQuantity, lookup_put]
  by_cases hk : key' = key
  · simp only [if_pos hk]
    exact unsignedDec_of_nonneg h
  · simp only [if_neg hk]

/-- What a block has written to a price level is what is stored. -/
def Cached (s : Stores) : Prop :=
  ∀ key q, s.transientPriceLevels.lookup key = some q →
    (s.priceLevels.lookup key).getD 0 = q

theorem Cached.set {s : Stores} (hs : s.Cached) (key : LevelKey) (q : LegacyDec) :
    (s.setOrderbookPriceLevelQuantity key q).Cached := by
  intro key' q' h
  simp only [setOrderbookPriceLevelQuantity, lookup_put] at h ⊢
  by_cases hk : key' = key
  · rw [if_pos hk] at h ⊢
    by_cases hq : q = 0
    · rw [if_pos hq, ← Option.some.inj h, hq]
      rfl
    · rw [if_neg hq, Option.getD_some]
      exact Option.some.inj h
  · rw [if_neg hk] at h ⊢
    exact hs key' q' h

/-- Two states with the same stores of orders. -/
structure SameOrders (s s' : Stores) : Prop where
  orders : s'.orders = s.orders
  ordersIndex : s'.ordersIndex = s.ordersIndex
  transientOrders : s'.transientOrders = s.transientOrders
  subaccountOrders : s'.subaccountOrders = s.subaccountOrders

/-- What moving a price level does. -/
structure LevelMoved (s s' : Stores) (key : LevelKey) (q : LegacyDec) : Prop where
  same : SameOrders s s'
  metadata : s'.metadata = s.metadata
  quantity : ∀ key', s'.getOrderbookPriceLevelQuantity key' =
    s.getOrderbookPriceLevelQuantity key' + if key' = key then q else 0
  cached : s.Cached → s'.Cached

theorem levelMoved_set (s : Stores) (key : LevelKey) (q : LegacyDec)
    (h : 0 ≤ s.getOrderbookPriceLevelQuantity key + q) :
    LevelMoved s (s.setOrderbookPriceLevelQuantity key
      (s.getOrderbookPriceLevelQuantity key + q)) key q := by
  refine ⟨⟨rfl, rfl, rfl, rfl⟩, rfl, ?_, fun hs => hs.set key _⟩
  intro key'
  rw [getOrderbookPriceLevelQuantity_set s key key' h]
  by_cases hk : key' = key
  · rw [if_pos hk, if_pos hk, hk]
  · rw [if_neg hk, if_neg hk, add_zero]

theorem levelMoved_zero (s : Stores) (key : LevelKey) : LevelMoved s s key 0 :=
  ⟨⟨rfl, rfl, rfl, rfl⟩, rfl, fun key' => by rw [ite_self, add_zero], id⟩

theorem incrementOrderbookPriceLevelQuantity_moved (s : Stores) (key : LevelKey)
    (h : 0 ≤ s.getOrderbookPriceLevelQuantity key + q) :
    LevelMoved s (s.incrementOrderbookPriceLevelQuantity key q) key q := by
  rw [incrementOrderbookPriceLevelQuantity]
  split
  · next hq => exact hq ▸ levelMoved_zero s key
  · exact levelMoved_set s key q h

theorem decrementOrderbookPriceLevelQuantity_moved (s : Stores) (key : LevelKey)
    (h : 0 ≤ s.getOrderbookPriceLevelQuantity key - q) :
    LevelMoved s (s.decrementOrderbookPriceLevelQuantity key q) key (-q) := by
  rw [decrementOrderbookPriceLevelQuantity]
  split
  · next hq => rw [hq, neg_zero]; exact levelMoved_zero s key
  · rw [sub_eq_add_neg] at h ⊢
    exact levelMoved_set s key (-q) h

/-! ## The invariant -/

/-- What an order counts for in a price level. -/
def levelWeight (key : LevelKey) (k : PriceKey) (o : LimitOrder) : LegacyDec :=
  if k.level = key then o.fillable else 0

/-- What an order counts for in the metadata of a subaccount and side. -/
def sideWeight (key : MetadataKey) (k : PriceKey) (o : LimitOrder) :
    SubaccountOrderbookMetadata :=
  if k.side o.orderInfo.subaccountID = key then contribution o else 0

/-- An order that rests or is pending. -/
def Stored (s : Stores) (pending : Store PriceKey LimitOrder) (k : PriceKey)
    (o : LimitOrder) : Prop :=
  s.orders.lookup k = some o ∨ pending.lookup k = some o

/-- The stores agree with the orders they hold. -/
structure Tallied (s : Stores) (metadata : MetadataKey → SubaccountOrderbookMetadata)
    (pending : Store PriceKey LimitOrder) : Prop where
  key : ∀ k o, s.Stored pending k o → k = priceKey k.marketID o ∧ 0 < o.fillable
  disjoint : ∀ k o, s.orders.lookup k = some o → pending.lookup k = none
  unique : ∀ k o k' o', s.Stored pending k o → s.Stored pending k' o' →
    k.orderHash = k'.orderHash → k = k'
  index : ∀ i k, s.ordersIndex.lookup i = some k ↔
    ∃ o, s.orders.lookup k = some o ∧ i = k.index o.orderInfo.subaccountID
  owned_resting : ∀ k o, s.orders.lookup k = some o →
    s.subaccountOrders.lookup (k.owned o.orderInfo.subaccountID) = some (newSubaccountOrder o)
  owned_pending : ∀ k o, pending.lookup k = some o →
    ∃ z, s.subaccountOrders.lookup (k.owned o.orderInfo.subaccountID) = some z
  owned_sound : ∀ i z, s.subaccountOrders.lookup i = some z →
    ∃ k o, s.Stored pending k o ∧ i = k.owned o.orderInfo.subaccountID
  level : ∀ key, s.getOrderbookPriceLevelQuantity key = total (levelWeight key) s.orders
  cached : s.Cached
  metadata : ∀ key, metadata key =
    total (sideWeight key) s.orders + total (sideWeight key) pending

/-- What a key may come to hold, resting or pending: one order that belongs there, of the
    owner of what was there before. No other stored order has the hash of the key. -/
structure Slot (s : Stores) (pending : Store PriceKey LimitOrder) (k : PriceKey)
    (owner : Hash) (x y : Option LimitOrder) : Prop where
  fits : ∀ o, x = some o ∨ y = some o →
    k = priceKey k.marketID o ∧ 0 < o.fillable ∧ o.orderInfo.subaccountID = owner
  single : ∀ o, x = some o → y = none
  fresh : ∀ k' o, s.Stored pending k' o → k'.orderHash = k.orderHash → k' = k
  kept : ∀ o, s.Stored pending k o → o.orderInfo.subaccountID = owner

/-- The stores of orders after such a change. -/
structure OrderMoved (s s' : Stores) (k : PriceKey) (owner : Hash) (x y : Option LimitOrder) :
    Prop where
  orders : s'.orders = put k x s.orders
  index : ∀ i, s'.ordersIndex.lookup i =
    if i = k.index owner then x.map (fun _ => k) else s.ordersIndex.lookup i
  owned : ∀ i, i ≠ k.owned owner → s'.subaccountOrders.lookup i = s.subaccountOrders.lookup i
  owned_resting : ∀ o, x = some o →
    s'.subaccountOrders.lookup (k.owned owner) = some (newSubaccountOrder o)
  owned_pending : ∀ o, y = some o → ∃ z, s'.subaccountOrders.lookup (k.owned owner) = some z
  owned_none : x = none → y = none → s'.subaccountOrders.lookup (k.owned owner) = none

/-- The one change the operations make: what the key `k` holds, in all stores. -/
structure Move (s s' : Stores) (metadata metadata' : MetadataKey → SubaccountOrderbookMetadata)
    (pending : Store PriceKey LimitOrder) (k : PriceKey) (owner : Hash)
    (x y : Option LimitOrder) : Prop
    extends Slot s pending k owner x y, OrderMoved s s' k owner x y where
  level : ∀ key, s'.getOrderbookPriceLevelQuantity key =
    s.getOrderbookPriceLevelQuantity key +
      (weight (levelWeight key) k x - weight (levelWeight key) k (s.orders.lookup k))
  cached : s.Cached → s'.Cached
  metadata : ∀ key, metadata' key = metadata key +
    (weight (sideWeight key) k x - weight (sideWeight key) k (s.orders.lookup k)) +
    (weight (sideWeight key) k y - weight (sideWeight key) k (pending.lookup k))

section Move

variable {s s' : Stores} {metadata metadata' : MetadataKey → SubaccountOrderbookMetadata}
  {pending : Store PriceKey LimitOrder} {k : PriceKey} {owner : Hash}
  {x y : Option LimitOrder}

section Step

variable (m : Move s s' metadata metadata' pending k owner x y)
include m

theorem Move.stored (k' : PriceKey) (o : LimitOrder) :
    s'.Stored (put k y pending) k' o ↔
      if k' = k then x = some o ∨ y = some o else s.Stored pending k' o := by
  rw [Stored, m.orders, lookup_put, lookup_put]
  by_cases h : k' = k
  · rw [if_pos h, if_pos h, if_pos h]
  · rw [if_neg h, if_neg h, if_neg h]
    rfl

variable {k' : PriceKey} {o : LimitOrder}

theorem Move.stored_cases (h : s'.Stored (put k y pending) k' o) :
    (k' = k ∧ (x = some o ∨ y = some o)) ∨ (k' ≠ k ∧ s.Stored pending k' o) := by
  rw [m.stored] at h
  by_cases hk : k' = k
  · rw [if_pos hk] at h
    exact Or.inl ⟨hk, h⟩
  · rw [if_neg hk] at h
    exact Or.inr ⟨hk, h⟩

theorem Move.owned_ne (hne : k' ≠ k) (h : s.Stored pending k' o) :
    k'.owned o.orderInfo.subaccountID ≠ k.owned owner := by
  intro heq
  exact hne (m.fresh k' o h (congrArg SubaccountOrderKey.orderHash heq))

theorem Move.index_iff (h : Tallied s metadata pending) (i : IndexKey) (k' : PriceKey) :
    s'.ordersIndex.lookup i = some k' ↔
      ∃ o, s'.orders.lookup k' = some o ∧ i = k'.index o.orderInfo.subaccountID := by
  rw [m.index, m.orders, lookup_put]
  by_cases hi : i = k.index owner
  · rw [if_pos hi]
    constructor
    · intro hx
      obtain ⟨o, ho, hk⟩ := Option.map_eq_some_iff.mp hx
      subst hk
      refine ⟨o, by rw [if_pos rfl, ho], ?_⟩
      rw [hi, (m.fits o (Or.inl ho)).2.2]
    · rintro ⟨o, ho, hio⟩
      by_cases hk : k' = k
      · rw [if_pos hk] at ho
        rw [ho, hk]
        rfl
      · -- another resting order would share the hash
        rw [if_neg hk] at ho
        have hhash := congrArg IndexKey.orderHash (hio.symm.trans hi)
        exact absurd (m.fresh k' o (Or.inl ho) hhash) hk
  · rw [if_neg hi, h.index]
    by_cases hk : k' = k
    · subst hk
      constructor
      · rintro ⟨o, ho, hio⟩
        exact absurd (hio.trans (by rw [m.kept o (Or.inl ho)])) hi
      · rintro ⟨o, ho, hio⟩
        rw [if_pos rfl] at ho
        exact absurd (hio.trans (by rw [(m.fits o (Or.inl ho)).2.2])) hi
    · simp only [if_neg hk]

/-- **THE STEP**: changing what one key holds keeps the stores tallied. -/
theorem Tallied.move (h : Tallied s metadata pending) :
    Tallied s' metadata' (put k y pending) where
  key := by
    intro k' o hs
    rcases m.stored_cases hs with ⟨rfl, ho⟩ | ⟨-, ho⟩
    · exact ⟨(m.fits o ho).1, (m.fits o ho).2.1⟩
    · exact h.key k' o ho
  disjoint := by
    intro k' o ho
    rw [m.orders, lookup_put] at ho
    rw [lookup_put]
    by_cases hk : k' = k
    · rw [if_pos hk] at ho ⊢
      exact m.single o ho
    · rw [if_neg hk] at ho ⊢
      exact h.disjoint k' o ho
  unique := by
    intro k₁ o₁ k₂ o₂ h₁ h₂ hhash
    rcases m.stored_cases h₁ with ⟨rfl, -⟩ | ⟨hne₁, ho₁⟩
    · rcases m.stored_cases h₂ with ⟨rfl, -⟩ | ⟨-, ho₂⟩
      · rfl
      · exact (m.fresh k₂ o₂ ho₂ hhash.symm).symm
    · rcases m.stored_cases h₂ with ⟨rfl, -⟩ | ⟨-, ho₂⟩
      · exact m.fresh k₁ o₁ ho₁ hhash
      · exact h.unique k₁ o₁ k₂ o₂ ho₁ ho₂ hhash
  index := m.index_iff h
  owned_resting := by
    intro k' o ho
    rw [m.orders, lookup_put] at ho
    by_cases hk : k' = k
    · rw [if_pos hk] at ho
      rw [hk, (m.fits o (Or.inl ho)).2.2]
      exact m.owned_resting o ho
    · rw [if_neg hk] at ho
      rw [m.owned _ (m.owned_ne hk (Or.inl ho))]
      exact h.owned_resting k' o ho
  owned_pending := by
    intro k' o ho
    rw [lookup_put] at ho
    by_cases hk : k' = k
    · rw [if_pos hk] at ho
      rw [hk, (m.fits o (Or.inr ho)).2.2]
      exact m.owned_pending o ho
    · rw [if_neg hk] at ho
      rw [m.owned _ (m.owned_ne hk (Or.inr ho))]
      exact h.owned_pending k' o ho
  owned_sound := by
    intro i z hz
    by_cases hi : i = k.owned owner
    · obtain ⟨o, ho⟩ : ∃ o, x = some o ∨ y = some o := by
        by_contra hnone
        push Not at hnone
        have hx : x = none := Option.eq_none_iff_forall_ne_some.mpr (fun o => (hnone o).1)
        have hy : y = none := Option.eq_none_iff_forall_ne_some.mpr (fun o => (hnone o).2)
        rw [hi, m.owned_none hx hy] at hz
        cases hz
      refine ⟨k, o, ?_, by rw [hi, (m.fits o ho).2.2]⟩
      rw [m.stored, if_pos rfl]
      exact ho
    · rw [m.owned i hi] at hz
      obtain ⟨k', o, ho, hio⟩ := h.owned_sound i z hz
      have hk : k' ≠ k := by
        rintro rfl
        exact hi (hio.trans (by rw [m.kept o ho]))
      refine ⟨k', o, ?_, hio⟩
      rw [m.stored, if_neg hk]
      exact ho
  level := by
    intro key
    rw [m.level, h.level, m.orders, total_put_sub]
  cached := m.cached h.cached
  metadata := by
    intro key
    rw [m.metadata, h.metadata, m.orders, total_put_sub, total_put_sub]
    abel

end Step

/-- The fillable quantity of an order, if there is one. -/
def quantityIn (x : Option LimitOrder) : LegacyDec := x.elim 0 (·.fillable)

/-- The metadata of an order, if there is one. -/
def counted (x : Option LimitOrder) : SubaccountOrderbookMetadata := x.elim 0 contribution

@[simp] theorem counted_none : counted none = 0 := rfl

@[simp] theorem counted_some (o : LimitOrder) : counted (some o) = contribution o := rfl

theorem weight_levelWeight (key : LevelKey) (k : PriceKey) (x : Option LimitOrder) :
    weight (levelWeight key) k x = if key = k.level then quantityIn x else 0 := by
  cases x with
  | none => exact (ite_self _).symm
  | some o => exact if_congr eq_comm rfl rfl

theorem weight_sideWeight (key : MetadataKey) (k : PriceKey)
    (h : ∀ o, x = some o → o.orderInfo.subaccountID = owner) :
    weight (sideWeight key) k x = if key = k.side owner then counted x else 0 := by
  cases x with
  | none => exact (ite_self _).symm
  | some o =>
    rw [← h o rfl]
    exact if_congr eq_comm rfl rfl

variable {s₁ : Stores}

/-- A move put together: the stores of orders, one price level, one metadata record. -/
theorem Slot.move (slot : Slot s pending k owner x y) (level : LevelMoved s₁ s' k.level q)
    (hlevels : s₁.priceLevels = s.priceLevels)
    (htransient : s₁.transientPriceLevels = s.transientPriceLevels)
    (order : OrderMoved s s₁ k owner x y)
    (hq : q = quantityIn x - quantityIn (s.orders.lookup k))
    (hmetadata : ∀ key, metadata' key = metadata key + if key = k.side owner then
      counted x - counted (s.orders.lookup k) + (counted y - counted (pending.lookup k))
      else 0) :
    Move s s' metadata metadata' pending k owner x y where
  toSlot := slot
  orders := level.same.orders.trans order.orders
  index i := by rw [level.same.ordersIndex, order.index]
  owned i hi := by rw [level.same.subaccountOrders, order.owned i hi]
  owned_resting o ho := by rw [level.same.subaccountOrders, order.owned_resting o ho]
  owned_pending o ho := by
    rw [level.same.subaccountOrders]
    exact order.owned_pending o ho
  owned_none hx hy := by rw [level.same.subaccountOrders, order.owned_none hx hy]
  level key := by
    have hget : s₁.getOrderbookPriceLevelQuantity key =
        s.getOrderbookPriceLevelQuantity key := by
      rw [getOrderbookPriceLevelQuantity, hlevels, htransient]
      rfl
    rw [level.quantity, hget, weight_levelWeight, weight_levelWeight, hq]
    split
    · rfl
    · rw [sub_zero]
  cached hs := level.cached (by rw [Cached, hlevels, htransient]; exact hs)
  metadata key := by
    rw [hmetadata,
      weight_sideWeight key k (fun o ho => (slot.fits o (Or.inl ho)).2.2),
      weight_sideWeight key k (fun o ho => slot.kept o (Or.inl ho)),
      weight_sideWeight key k (fun o ho => (slot.fits o (Or.inr ho)).2.2),
      weight_sideWeight key k (fun o ho => slot.kept o (Or.inr ho))]
    split
    · abel
    · abel

theorem orderMoved_written (horders : s₁.orders = put k x s.orders)
    (hindex : ∀ i, s₁.ordersIndex.lookup i =
      if i = k.index owner then x.map (fun _ => k) else s.ordersIndex.lookup i)
    (howned : s₁.subaccountOrders =
      put (k.owned owner) ((x.or y).map newSubaccountOrder) s.subaccountOrders) :
    OrderMoved s s₁ k owner x y where
  orders := horders
  index := hindex
  owned i hi := by rw [howned, lookup_put, if_neg hi]
  owned_resting o hx := by rw [howned, lookup_put, if_pos rfl, hx, Option.some_or, Option.map_some]
  owned_pending o hy := by
    rw [howned, lookup_put, if_pos rfl, hy]
    cases x with
    | none | some o' => exact ⟨_, rfl⟩
  owned_none hx hy := by
    rw [howned, lookup_put, if_pos rfl, hx, hy, Option.none_or, Option.map_none]

end Move

/-! ## Placing and cancelling -/

section Operations

variable {s : Stores} {metadata : MetadataKey → SubaccountOrderbookMetadata}
  {pending : Store PriceKey LimitOrder}

theorem Tallied.level_nonneg (h : Tallied s metadata pending) (key : LevelKey) :
    0 ≤ s.getOrderbookPriceLevelQuantity key := by
  rw [h.level]
  refine total_nonneg ?_
  intro e he
  rw [levelWeight]
  split
  · exact (h.key e.1 e.2 (Or.inl (mem_entries_iff.mp he))).2.le
  · exact le_refl 0

variable {k : PriceKey} {o : LimitOrder}

theorem Tallied.fillable_le_level (h : Tallied s metadata pending)
    (ho : s.orders.lookup k = some o) :
    o.fillable ≤ s.getOrderbookPriceLevelQuantity k.level := by
  rw [h.level, total_eq_add_erase _ k, ho, weight_some, levelWeight, if_pos rfl]
  refine le_add_of_nonneg_right (total_nonneg ?_)
  intro e he
  rw [levelWeight]
  split
  · have hmem : e ∈ s.orders.entries := (List.kerase_sublist k _).subset he
    exact (h.key e.1 e.2 (Or.inl (mem_entries_iff.mp hmem))).2.le
  · exact le_refl 0

variable {s' : Stores}

theorem getSubaccountOrderbookMetadata_put (key : MetadataKey)
    {m : SubaccountOrderbookMetadata} (h : s'.metadata = put key (some m) s.metadata)
    (key' : MetadataKey) :
    s'.getSubaccountOrderbookMetadata key' =
      if key' = key then m else s.getSubaccountOrderbookMetadata key' := by
  rw [getSubaccountOrderbookMetadata, h, lookup_put]
  split
  · rfl
  · rfl

theorem Tallied.withMetadata (h : Tallied s metadata pending)
    (store : Store MetadataKey SubaccountOrderbookMetadata) :
    Tallied { s with metadata := store } metadata pending :=
  ⟨h.key, h.disjoint, h.unique, h.index, h.owned_resting, h.owned_pending, h.owned_sound,
    h.level, h.cached, h.metadata⟩

theorem Tallied.index_none (h : Tallied s metadata pending) (hnone : s.orders.lookup k = none)
    (hfresh : ∀ k' o, s.Stored pending k' o → k'.orderHash = k.orderHash → k' = k)
    (owner : Hash) : s.ordersIndex.lookup (k.index owner) = none := by
  refine Option.eq_none_iff_forall_ne_some.mpr ?_
  intro k' hk'
  obtain ⟨o, ho, hi⟩ := (h.index _ k').mp hk'
  have hk : k' = k := hfresh k' o (Or.inl ho) (congrArg IndexKey.orderHash hi.symm)
  cases (hk ▸ hnone).symm.trans ho

theorem Tallied.resting_none (h : Tallied s metadata pending) (ho : pending.lookup k = some o) :
    s.orders.lookup k = none := by
  refine Option.eq_none_iff_forall_ne_some.mpr ?_
  intro o' ho'
  cases (h.disjoint k o' ho').symm.trans ho

/-- The invariant between two operations of a block: all transient orders are pending,
    and no metadata delta is. -/
def MidBlock (s : Stores) : Prop :=
  Tallied s s.getSubaccountOrderbookMetadata s.transientOrders

/-- No stored order has the hash. Order hashes are made of the order and a nonce of its
    subaccount that no other order has. -/
def Fresh (s : Stores) (orderHash : Hash) : Prop :=
  orderHash ∉ (s.orders.keys ++ s.transientOrders.keys).map PriceKey.orderHash

instance (s : Stores) (orderHash : Hash) : Decidable (s.Fresh orderHash) :=
  inferInstanceAs (Decidable (¬ _))

variable {orderHash : Hash}

theorem Fresh.ne (h : s.Fresh orderHash) (ho : s.Stored s.transientOrders k o) :
    k.orderHash ≠ orderHash := by
  rintro rfl
  refine h (List.mem_map.mpr ⟨k, List.mem_append.mpr ?_, rfl⟩)
  rcases ho with ho | ho
  · exact Or.inl (mem_keys_iff.mpr ⟨o, ho⟩)
  · exact Or.inr (mem_keys_iff.mpr ⟨o, ho⟩)

theorem Fresh.not_stored (h : s.Fresh k.orderHash) :
    s.orders.lookup k = none ∧ s.transientOrders.lookup k = none :=
  ⟨Option.eq_none_iff_forall_ne_some.mpr (fun _ ho => h.ne (Or.inl ho) rfl),
    Option.eq_none_iff_forall_ne_some.mpr (fun _ ho => h.ne (Or.inr ho) rfl)⟩

/-- The metadata a caller hands over: none, or what it has just read. -/
def Current (s : Stores) (metadata : Option SubaccountOrderbookMetadata)
    (key : MetadataKey) : Prop :=
  metadata = none ∨ metadata = some (s.getSubaccountOrderbookMetadata key)

variable {m : Option SubaccountOrderbookMetadata}

theorem Current.getD {key : MetadataKey} (h : s.Current m key) :
    m.getD (s.getSubaccountOrderbookMetadata key) = s.getSubaccountOrderbookMetadata key := by
  rcases h with rfl | rfl
  · rfl
  · rfl

theorem Fresh.slot (h : s.Fresh o.orderHash) (hpos : 0 < o.fillable) (marketID : Hash)
    {x y : Option LimitOrder} (hxy : x = some o ∧ y = none ∨ x = none ∧ y = some o) :
    Slot s s.transientOrders (priceKey marketID o) o.orderInfo.subaccountID x y where
  fits o' ho' := by
    have ho : o' = o := by
      rcases hxy with ⟨rfl, rfl⟩ | ⟨rfl, rfl⟩
      · rcases ho' with ho' | ho'
        · exact (Option.some.inj ho').symm
        · cases ho'
      · rcases ho' with ho' | ho'
        · cases ho'
        · exact (Option.some.inj ho').symm
    subst ho
    exact ⟨rfl, hpos, rfl⟩
  single o' ho' := by
    rcases hxy with ⟨-, hy⟩ | ⟨hx, -⟩
    · exact hy
    · rw [hx] at ho'
      cases ho'
  fresh _ _ ho' heq := absurd heq (h.ne ho')
  kept _ ho' := absurd rfl (h.ne ho')

theorem Tallied.stored_unique (h : Tallied s metadata pending) {o' : LimitOrder}
    (ho : s.Stored pending k o) (ho' : s.Stored pending k o') : o' = o := by
  rcases ho with ho | ho
  · rcases ho' with ho' | ho'
    · exact Option.some.inj (ho'.symm.trans ho)
    · cases (h.disjoint k o ho).symm.trans ho'
  · rcases ho' with ho' | ho'
    · cases (h.disjoint k o' ho').symm.trans ho
    · exact Option.some.inj (ho'.symm.trans ho)

theorem Tallied.slot_none (h : Tallied s metadata pending) (ho : s.Stored pending k o) :
    Slot s pending k o.orderInfo.subaccountID none none where
  fits o' ho' := by
    rcases ho' with ho' | ho'
    · cases ho'
    · cases ho'
  single _ _ := rfl
  fresh k' o' ho' heq := h.unique k' o' k o ho' ho heq
  kept o' ho' := by rw [h.stored_unique ho ho']

/-- An operation changes what one key holds, one price level and one metadata record. -/
theorem MidBlock.moved (h : s.MidBlock) {s₁ s₂ : Stores} {owner : Hash}
    {x y : Option LimitOrder} {md : SubaccountOrderbookMetadata}
    {store store' : Store MetadataKey SubaccountOrderbookMetadata}
    (slot : Slot s s.transientOrders k owner x y) (level : LevelMoved s₁ s₂ k.level q)
    (hlevels : s₁.priceLevels = s.priceLevels ∧ s₁.transientPriceLevels = s.transientPriceLevels)
    (order : OrderMoved s s₁ k owner x y)
    (hpending : s₁.transientOrders = put k y s.transientOrders)
    (hs' : s' = { s₂ with metadata := store' })
    (hmetadata' : store' = put (k.side owner) (some md) store) (hmetadata : store = s.metadata)
    (hq : q = quantityIn x - quantityIn (s.orders.lookup k))
    (hmd : md = s.getSubaccountOrderbookMetadata (k.side owner) +
      (counted x - counted (s.orders.lookup k) +
        (counted y - counted (s.transientOrders.lookup k)))) : s'.MidBlock := by
  subst hs' hmetadata
  have hmove : Move s s₂ s.getSubaccountOrderbookMetadata
      { s₂ with metadata := store' }.getSubaccountOrderbookMetadata s.transientOrders k owner
      x y := by
    refine slot.move level hlevels.1 hlevels.2 order hq ?_
    intro key
    rw [getSubaccountOrderbookMetadata_put _ hmetadata']
    by_cases hk : key = k.side owner
    · rw [if_pos hk, if_pos hk, hk, hmd]
    · rw [if_neg hk, if_neg hk, add_zero]
  have htallied := (Tallied.move hmove h).withMetadata store'
  rw [← hpending, ← level.same.transientOrders] at htallied
  exact htallied

variable {marketID : Hash}

section New

variable (h : s.MidBlock)
  (hfresh : s.Fresh o.orderHash)
  (hpos : 0 < o.fillable)
  (hm : s.Current m ((priceKey marketID o).side o.orderInfo.subaccountID))
include h hfresh hpos hm

theorem setNewDerivativeLimitOrderWithMetadata_midBlock :
    (s.setNewDerivativeLimitOrderWithMetadata o m marketID).MidBlock := by
  obtain ⟨hnone, htnone⟩ := Fresh.not_stored (k := priceKey marketID o) hfresh
  have hlevel : LevelMoved
      { s with
        orders := put (priceKey marketID o) (some o) s.orders
        ordersIndex := put ((priceKey marketID o).index o.orderInfo.subaccountID)
          (some (priceKey marketID o)) s.ordersIndex
        metadata := put ((priceKey marketID o).side o.orderInfo.subaccountID)
          (some (countOrder (m.getD (s.getSubaccountOrderbookMetadata
            ((priceKey marketID o).side o.orderInfo.subaccountID))) o)) s.metadata
        subaccountOrders := put ((priceKey marketID o).owned o.orderInfo.subaccountID)
          (some (newSubaccountOrder o)) s.subaccountOrders }
      (s.setNewDerivativeLimitOrderWithMetadata o m marketID)
      (priceKey marketID o).level o.fillable :=
    incrementOrderbookPriceLevelQuantity_moved _ _
      (add_nonneg (Tallied.level_nonneg h (priceKey marketID o).level) hpos.le)
  refine h.moved (hfresh.slot hpos marketID (Or.inl ⟨rfl, rfl⟩)) hlevel ⟨rfl, rfl⟩
    (orderMoved_written rfl (fun i => lookup_put _ i _ _) rfl) (erase_eq_self htnone).symm rfl
    hlevel.metadata rfl ?_ ?_
  · rw [hnone]
    exact (sub_zero _).symm
  · rw [hm.getD, countOrder_eq, hnone, htnone, counted_none, counted_some]
    abel

theorem setNewTransientDerivativeLimitOrderWithMetadata_midBlock :
    (s.setNewTransientDerivativeLimitOrderWithMetadata o m marketID).MidBlock := by
  obtain ⟨hnone, htnone⟩ := Fresh.not_stored (k := priceKey marketID o) hfresh
  have hunindexed := Tallied.index_none h hnone
    (fun _ _ ho heq => absurd heq (hfresh.ne ho)) o.orderInfo.subaccountID
  refine h.moved (hfresh.slot hpos marketID (Or.inr ⟨rfl, rfl⟩))
    (levelMoved_zero (s.setNewTransientDerivativeLimitOrderWithMetadata o m marketID) _) ⟨rfl, rfl⟩
    (orderMoved_written (erase_eq_self hnone).symm (lookup_eq_ite hunindexed) rfl)
    rfl rfl rfl rfl ?_ ?_
  · rw [hnone]
    exact (sub_self _).symm
  · rw [countOrder_eq, hnone, htnone, counted_none, counted_some]
    refine (congrArg (· + contribution o) hm.getD).trans ?_
    abel

end New

variable {subaccountID : Hash} {isBuy : Option Bool}

/-- The order a cancellation finds is stored under its own key, for its own owner. -/
theorem Tallied.found (h : Tallied s metadata pending)
    (ho : s.getDerivativeLimitOrderBySubaccountIDAndHash marketID isBuy subaccountID
      orderHash = some o) :
    s.orders.lookup (priceKey marketID o) = some o ∧ o.orderInfo.subaccountID = subaccountID := by
  obtain ⟨k, hk, hko⟩ := Option.bind_eq_some_iff.mp ho
  obtain ⟨b, hb⟩ : ∃ b, s.ordersIndex.lookup ⟨marketID, b, subaccountID, orderHash⟩ =
      some k := by
    cases isBuy with
    | some b => exact ⟨b, hk⟩
    | none =>
      rcases Option.or_eq_some_iff.mp hk with hk | ⟨-, hk⟩
      · exact ⟨true, hk⟩
      · exact ⟨false, hk⟩
  obtain ⟨o', ho', hi⟩ := (h.index _ k).mp hb
  cases Option.some.inj (hko.symm.trans ho')
  have hmarket : marketID = k.marketID := congrArg IndexKey.marketID hi
  have howner : subaccountID = o.orderInfo.subaccountID := congrArg IndexKey.subaccountID hi
  have hkey : priceKey marketID o = k := by
    rw [hmarket]
    exact (h.key k o (Or.inl hko)).1.symm
  exact ⟨hkey ▸ hko, howner.symm⟩

theorem deleteDerivativeLimitOrder_midBlock (h : s.MidBlock)
    (ho : s.orders.lookup (priceKey marketID o) = some o) :
    ((s.deleteDerivativeLimitOrder marketID o).updateSubaccountOrderbookMetadataFromOrderCancel
      marketID o.orderInfo.subaccountID o).MidBlock := by
  have hpending : s.transientOrders.lookup (priceKey marketID o) = none := Tallied.disjoint h _ o ho
  have hlevel : LevelMoved
      { s with
        orders := put (priceKey marketID o) none s.orders
        ordersIndex := put ((priceKey marketID o).index o.orderInfo.subaccountID) none
          s.ordersIndex
        subaccountOrders := put ((priceKey marketID o).owned o.orderInfo.subaccountID) none
          s.subaccountOrders }
      (s.deleteDerivativeLimitOrder marketID o) (priceKey marketID o).level (-o.fillable) :=
    decrementOrderbookPriceLevelQuantity_moved _ _
      (sub_nonneg.mpr (Tallied.fillable_le_level (s := s) h ho))
  generalize s.deleteDerivativeLimitOrder marketID o = s₁ at hlevel ⊢
  refine h.moved (Tallied.slot_none h (Or.inl ho)) hlevel ⟨rfl, rfl⟩
    (orderMoved_written rfl (fun i => lookup_put _ i _ _) rfl) (erase_eq_self hpending).symm rfl
    rfl hlevel.metadata ?_ ?_
  · rw [ho]
    exact (zero_sub _).symm
  · rw [uncountOrder_eq, getSubaccountOrderbookMetadata, hlevel.metadata, ho, hpending,
      counted_none, counted_some]
    show s.getSubaccountOrderbookMetadata _ - _ = _
    abel

variable {refund : LimitOrder → Bool}

theorem cancelRestingDerivativeLimitOrder_midBlock (h : s.MidBlock)
    {shouldCancelReduceOnly shouldCancelVanilla : Bool}
    (hs : s.cancelRestingDerivativeLimitOrder refund marketID subaccountID isBuy orderHash
      shouldCancelReduceOnly shouldCancelVanilla = .ok s') : s'.MidBlock := by
  rw [cancelRestingDerivativeLimitOrder] at hs
  split at hs
  · cases hs
  rename_i o ho
  split at hs
  · cases hs
    exact h
  · split at hs
    · cases hs
    obtain ⟨hstored, howner⟩ := Tallied.found h ho
    cases hs
    subst howner
    exact deleteDerivativeLimitOrder_midBlock h hstored

theorem cancelTransientDerivativeLimitOrder_midBlock (h : s.MidBlock) {hasPosition : Bool}
    (ho : s.transientOrders.lookup (priceKey marketID o) = some o)
    (hs : s.cancelTransientDerivativeLimitOrder refund hasPosition marketID o = .ok s') :
    s'.MidBlock := by
  rw [cancelTransientDerivativeLimitOrder] at hs
  split at hs
  · cases hs
  split at hs
  · cases hs
  cases hs
  have hnone : s.orders.lookup (priceKey marketID o) = none := Tallied.resting_none h ho
  have hunindexed := Tallied.index_none h hnone
    (fun k' o' ho' heq => Tallied.unique h k' o' _ o ho' (Or.inr ho) heq)
    o.orderInfo.subaccountID
  refine h.moved (Tallied.slot_none h (Or.inr ho)) (levelMoved_zero
      ((s.updateSubaccountOrderbookMetadataFromOrderCancel marketID
        o.orderInfo.subaccountID o).deleteTransientDerivativeLimitOrder marketID o) _) ⟨rfl, rfl⟩
    (orderMoved_written (erase_eq_self hnone).symm (lookup_eq_ite hunindexed) rfl) rfl rfl rfl
    rfl ?_ ?_
  · rw [hnone]
    exact (sub_self _).symm
  · rw [uncountOrder_eq, hnone, ho, counted_none, counted_some]
    abel

end Operations

end Stores

end ExchangeOrderStore
