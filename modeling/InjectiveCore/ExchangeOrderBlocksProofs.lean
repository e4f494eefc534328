import InjectiveCore.ExchangeOrderBatchProofs

/-!
# Runs of blocks

A block is a run of operations, then the batches of its markets, then the end of its
transient stores.

- `Step.midBlock`, `Block.midBlock`: an operation and a block keep the invariant.
- `order_metadata_exact`: at the end of every block of every run, price levels and
  metadata are exact.
-/

namespace ExchangeOrderStore

open KeyedStore ExchangeFees ExchangeDerivativeFill ExchangeDerivativeBook
  ExchangeSubaccountOrders

namespace Stores

/-! ## Blocks -/

section Blocks

variable {s : Stores} {pending : Store PriceKey LimitOrder}

/-- The batches of the markets, one after the other. -/
def applyBatches (s : Stores) (batches : List (Hash × MatchedOrders)) : Stores :=
  batches.foldl (fun s b => s.applyBatch b.1 b.2) s

theorem applyBatches_tallied (batches : List (Hash × MatchedOrders))
    (h : Tallied s s.getSubaccountOrderbookMetadata pending)
    (hnodup : (batches.map Prod.fst).Nodup)
    (hvalid : ∀ b ∈ batches, b.2.Valid s pending b.1) :
    ∃ pending', Tallied (s.applyBatches batches)
        (s.applyBatches batches).getSubaccountOrderbookMetadata pending' ∧
      ∀ k, pending'.lookup k =
        if k.marketID ∈ batches.map Prod.fst then none else pending.lookup k := by
  induction batches generalizing s pending with
  | nil => exact ⟨pending, h, fun k => (if_neg List.not_mem_nil).symm⟩
  | cons b rest ih =>
    rw [List.map_cons, List.nodup_cons] at hnodup
    obtain ⟨pending₁, h₁, hpend₁, horders₁, -⟩ :=
      applyBatch_tallied h (hvalid b List.mem_cons_self)
    have hvalid₁ : ∀ b' ∈ rest, b'.2.Valid (s.applyBatch b.1 b.2) pending₁ b'.1 := by
      intro b' hb'
      have hne : b'.1 ≠ b.1 := fun heq => hnodup.1 (heq ▸ List.mem_map.mpr ⟨b', hb', rfl⟩)
      have hv := hvalid b' (List.mem_cons_of_mem b hb')
      have hsame : ∀ e : BookFill LegacyDec,
          (s.applyBatch b.1 b.2).orders.lookup (priceKey b'.1 e.order) =
              s.orders.lookup (priceKey b'.1 e.order) ∧
            pending₁.lookup (priceKey b'.1 e.order) = pending.lookup (priceKey b'.1 e.order) := by
        intro e
        exact ⟨horders₁ _ hne, (hpend₁ _).trans (if_neg hne)⟩
      refine ⟨hv.resting.frame (fun e _ => hsame e), hv.transient.frame (fun e _ => hsame e), ?_⟩
      intro k o ho hk
      rw [hpend₁, if_neg (hk ▸ hne)] at ho
      exact hv.all k o ho hk
    obtain ⟨pending', htallied, hpend⟩ := ih h₁ hnodup.2 hvalid₁
    refine ⟨pending', htallied, ?_⟩
    intro k
    rw [hpend, hpend₁]
    rw [List.map_cons]
    by_cases hrest : k.marketID ∈ rest.map Prod.fst
    · rw [if_pos hrest, if_pos (List.mem_cons_of_mem _ hrest)]
    · rw [if_neg hrest]
      refine if_congr ?_ rfl rfl
      rw [List.mem_cons]
      exact ⟨Or.inl, fun hk => hk.resolve_right hrest⟩

theorem Tallied.commit (h : Tallied s s.getSubaccountOrderbookMetadata pending)
    (hnone : ∀ k, pending.lookup k = none) : s.commit.MidBlock := by
  have hempty : Tallied s s.getSubaccountOrderbookMetadata ∅ :=
    h.congr_pending (fun k => (hnone k).symm)
  have hlevel : ∀ key, s.commit.getOrderbookPriceLevelQuantity key =
      s.getOrderbookPriceLevelQuantity key := by
    intro key
    show (s.priceLevels.lookup key).getD 0 = _
    rw [getOrderbookPriceLevelQuantity]
    cases hq : s.transientPriceLevels.lookup key with
    | none => rfl
    | some q => exact h.cached key q hq
  exact ⟨hempty.key, hempty.disjoint, hempty.unique, hempty.index, hempty.owned_resting,
    hempty.owned_pending, hempty.owned_sound, fun key => (hlevel key).trans (hempty.level key),
    fun _ _ hq => (by cases hq), hempty.metadata⟩

/-- An operation on the stores during a block. Orders are placed with a hash no stored
    order has, cancellations of transient orders are given a stored one, and market orders
    are matched with stored orders. A call that returns an error has written nothing. -/
inductive Step (s : Stores) : Stores → Prop where
  | setNew (o : LimitOrder) (metadata : Option SubaccountOrderbookMetadata) (marketID : Hash)
      (hfresh : s.Fresh o.orderHash) (hpos : 0 < o.fillable)
      (hmetadata : s.Current metadata ((priceKey marketID o).side o.orderInfo.subaccountID)) :
      Step s (s.setNewDerivativeLimitOrderWithMetadata o metadata marketID)
  | setNewTransient (o : LimitOrder) (metadata : Option SubaccountOrderbookMetadata)
      (marketID : Hash) (hfresh : s.Fresh o.orderHash) (hpos : 0 < o.fillable)
      (hmetadata : s.Current metadata ((priceKey marketID o).side o.orderInfo.subaccountID)) :
      Step s (s.setNewTransientDerivativeLimitOrderWithMetadata o metadata marketID)
  | cancelResting (refund : LimitOrder → Bool) (marketID subaccountID : Hash)
      (isBuy : Option Bool) (orderHash : Hash)
      (shouldCancelReduceOnly shouldCancelVanilla : Bool) {s' : Stores}
      (hok : s.cancelRestingDerivativeLimitOrder refund marketID subaccountID isBuy orderHash
        shouldCancelReduceOnly shouldCancelVanilla = .ok s') : Step s s'
  | cancelTransient (refund : LimitOrder → Bool) (hasPosition : Bool) (marketID : Hash)
      (o : LimitOrder) {s' : Stores}
      (hstored : s.transientOrders.lookup (priceKey marketID o) = some o)
      (hok : s.cancelTransientDerivativeLimitOrder refund hasPosition marketID o = .ok s') :
      Step s s'
  | marketBatch (marketID : Hash) (resting : List (BookFill LegacyDec))
      (hmatch : MatchOf s s.transientOrders marketID true resting) :
      Step s (s.applyMarketBatch marketID resting)

/-- A block: operations, then the batches of the markets with transient orders. The orders
    of a market that is left without a batch, as an insolvent one, are cancelled one by one,
    which are operations too. -/
inductive Block (s : Stores) : Stores → Prop where
  | mk {s₁ : Stores} (batches : List (Hash × MatchedOrders))
      (hsteps : Relation.ReflTransGen Step s s₁) (hnodup : (batches.map Prod.fst).Nodup)
      (hvalid : ∀ b ∈ batches, b.2.Valid s₁ s₁.transientOrders b.1)
      (hall : ∀ k ∈ s₁.transientOrders.keys, k.marketID ∈ batches.map Prod.fst) :
      Block s (s₁.applyBatches batches).commit

variable {s' : Stores}

theorem Step.midBlock (h : s.MidBlock) (hstep : Step s s') : s'.MidBlock := by
  cases hstep with
  | setNew o metadata marketID hfresh hpos hmetadata =>
    exact setNewDerivativeLimitOrderWithMetadata_midBlock h hfresh hpos hmetadata
  | setNewTransient o metadata marketID hfresh hpos hmetadata =>
    exact setNewTransientDerivativeLimitOrderWithMetadata_midBlock h hfresh hpos hmetadata
  | cancelResting refund marketID subaccountID isBuy orderHash ro vanilla hok =>
    exact cancelRestingDerivativeLimitOrder_midBlock h hok
  | cancelTransient refund hasPosition marketID o hstored hok =>
    exact cancelTransientDerivativeLimitOrder_midBlock h hstored hok
  | marketBatch marketID resting hmatch => exact applyMarketBatch_midBlock h hmatch

theorem steps_midBlock {s₁ : Stores} (hsteps : Relation.ReflTransGen Step s s₁)
    (h : s.MidBlock) : s₁.MidBlock := by
  induction hsteps with
  | refl => exact h
  | tail _ hstep ih => exact hstep.midBlock ih

/-- **ONE BLOCK** keeps the invariant. -/
theorem Block.midBlock (hblock : Block s s') (h : s.MidBlock) : s'.MidBlock := by
  cases hblock with
  | mk batches hsteps hnodup hvalid hall =>
    obtain ⟨pending', htallied, hpend⟩ :=
      applyBatches_tallied batches (steps_midBlock hsteps h) hnodup hvalid
    refine htallied.commit ?_
    intro k
    rw [hpend]
    split
    · rfl
    · next hk =>
      refine Option.eq_none_iff_forall_ne_some.mpr ?_
      intro o ho
      exact hk (hall k (mem_keys_iff.mpr ⟨o, ho⟩))

theorem empty_midBlock : Stores.empty.MidBlock where
  key k o ho := by
    rcases ho with ho | ho
    · cases ho
    · cases ho
  disjoint k o ho := by cases ho
  unique k o k' o' ho := by
    rcases ho with ho | ho
    · cases ho
    · cases ho
  index i k := by
    constructor
    · intro hk
      cases hk
    · rintro ⟨o, ho, -⟩
      cases ho
  owned_resting k o ho := by cases ho
  owned_pending k o ho := by cases ho
  owned_sound i z hz := by cases hz
  level _ := rfl
  cached _ _ hq := by cases hq
  metadata _ := rfl

theorem blocks_midBlock (h : Relation.ReflTransGen Block Stores.empty s) : s.MidBlock := by
  induction h with
  | refl => exact empty_midBlock
  | tail _ hblock ih => exact hblock.midBlock ih

theorem blocks_committed (h : Relation.ReflTransGen Block Stores.empty s) : s.commit = s := by
  induction h with
  | refl => rfl
  | tail _ hblock _ =>
    cases hblock
    rfl

end Blocks

/-! ## Exactness -/

/-- The resting orders of a price level. -/
def ordersAt (s : Stores) (key : LevelKey) : List LimitOrder :=
  (s.orders.entries.filter (fun e => e.1.level = key)).map (·.2)

/-- The resting orders of a subaccount on one side of a market. -/
def ordersOf (s : Stores) (key : MetadataKey) : List LimitOrder :=
  (s.orders.entries.filter (fun e => e.1.side e.2.orderInfo.subaccountID = key)).map (·.2)

/-- Stored quantities and counts are what the stored orders add up to. Counts are 32-bit
    words. -/
structure Exact (s : Stores) : Prop where
  level : ∀ key, (s.priceLevels.lookup key).getD 0 = ((s.ordersAt key).map (·.fillable)).sum
  vanillaQuantity : ∀ key, (s.getSubaccountOrderbookMetadata key).aggregateVanillaQuantity =
    (((s.ordersOf key).filter (fun o => !o.isReduceOnly)).map (·.fillable)).sum
  reduceOnlyQuantity : ∀ key,
    (s.getSubaccountOrderbookMetadata key).aggregateReduceOnlyQuantity =
      (((s.ordersOf key).filter (·.isReduceOnly)).map (·.fillable)).sum
  vanillaCount : ∀ key,
    (s.getSubaccountOrderbookMetadata key).vanillaLimitOrderCount.toNat =
      ((s.ordersOf key).filter (fun o => !o.isReduceOnly)).length % 2 ^ 32
  reduceOnlyCount : ∀ key,
    (s.getSubaccountOrderbookMetadata key).reduceOnlyLimitOrderCount.toNat =
      ((s.ordersOf key).filter (·.isReduceOnly)).length % 2 ^ 32
  nonneg : ∀ key, 0 ≤ (s.getSubaccountOrderbookMetadata key).aggregateVanillaQuantity ∧
    0 ≤ (s.getSubaccountOrderbookMetadata key).aggregateReduceOnlyQuantity
  level_nonneg : ∀ key, 0 ≤ (s.priceLevels.lookup key).getD 0
  owned : ∀ i z, s.subaccountOrders.lookup i = some z ↔
    ∃ k o, s.orders.lookup k = some o ∧ i = k.owned o.orderInfo.subaccountID ∧
      z = newSubaccountOrder o

theorem sum_contribution (l : List LimitOrder) :
    (l.map contribution).sum =
      { vanillaLimitOrderCount := UInt32.ofNat (l.filter (fun o => !o.isReduceOnly)).length
        reduceOnlyLimitOrderCount := UInt32.ofNat (l.filter (·.isReduceOnly)).length
        aggregateReduceOnlyQuantity := ((l.filter (·.isReduceOnly)).map (·.fillable)).sum
        aggregateVanillaQuantity :=
          ((l.filter (fun o => !o.isReduceOnly)).map (·.fillable)).sum } := by
  induction l with
  | nil => rfl
  | cons o l ih =>
    rw [List.map_cons, List.sum_cons, ih]
    cases h : o.isReduceOnly with
    | true | false => simp [contribution, oneOrder, quantityOf, metadata_add, h, add_comm]

/-- Between blocks the transient stores are empty. -/
theorem MidBlock.exact {s : Stores} (h : s.MidBlock) (hcommit : s.commit = s) : s.Exact := by
  have htransient : s.transientOrders = ∅ := (congrArg transientOrders hcommit).symm
  have hlevels : s.transientPriceLevels = ∅ := (congrArg transientPriceLevels hcommit).symm
  have hquantity : ∀ key, (s.priceLevels.lookup key).getD 0 =
      s.getOrderbookPriceLevelQuantity key := by
    intro key
    rw [getOrderbookPriceLevelQuantity, hlevels, AList.lookup_empty]
  have hmetadata : ∀ key, s.getSubaccountOrderbookMetadata key =
      ((s.ordersOf key).map contribution).sum := by
    intro key
    rw [Tallied.metadata h, htransient, total_empty, add_zero]
    exact total_ite (fun k o => k.side o.orderInfo.subaccountID = key) contribution s.orders
  have hpos : ∀ key, ∀ o ∈ s.ordersOf key, 0 ≤ o.fillable := by
    intro key o ho
    obtain ⟨e, he, rfl⟩ := List.mem_map.mp ho
    exact (Tallied.key h e.1 e.2 (Or.inl (mem_entries_iff.mp (List.mem_of_mem_filter he)))).2.le
  have hsum : ∀ key, ∀ p : LimitOrder → Bool,
      0 ≤ (((s.ordersOf key).filter p).map (·.fillable)).sum := by
    intro key p
    refine List.sum_nonneg ?_
    intro q hq
    obtain ⟨o, ho, rfl⟩ := List.mem_map.mp hq
    exact hpos key o (List.mem_of_mem_filter ho)
  refine ⟨?_, ?_, ?_, ?_, ?_, ?_, ?_, ?_⟩
  · intro key
    rw [hquantity, Tallied.level h]
    exact total_ite (fun k _ => k.level = key) (·.fillable) s.orders
  · intro key
    rw [hmetadata, sum_contribution]
  · intro key
    rw [hmetadata, sum_contribution]
  · intro key
    rw [hmetadata, sum_contribution]
    exact UInt32.toNat_ofNat'
  · intro key
    rw [hmetadata, sum_contribution]
    exact UInt32.toNat_ofNat'
  · intro key
    rw [hmetadata, sum_contribution]
    exact ⟨hsum key _, hsum key _⟩
  · intro key
    rw [hquantity]
    exact Tallied.level_nonneg h key
  · intro i z
    constructor
    · intro hz
      obtain ⟨k, o, ho, hi⟩ := Tallied.owned_sound h i z hz
      rw [Stored, htransient, AList.lookup_empty] at ho
      have ho := ho.resolve_right (fun hn => by cases hn)
      rw [hi, Tallied.owned_resting h k o ho] at hz
      exact ⟨k, o, ho, hi, (Option.some.inj hz).symm⟩
    · rintro ⟨k, o, ho, rfl, rfl⟩
      exact Tallied.owned_resting h k o ho

/-- **METADATA IS EXACT** at the end of every block, in every run. -/
theorem order_metadata_exact {s : Stores} (h : Relation.ReflTransGen Block Stores.empty s) :
    s.Exact :=
  (blocks_midBlock h).exact (blocks_committed h)

/-- An order of subaccount 7 at price 10. -/
def sampleOrder (orderType : ExchangeFees.OrderType) (quantity : ℤ) (orderHash : Hash) :
    LimitOrder where
  orderInfo := ⟨7, 0, ⟨10⟩, ⟨quantity⟩, ""⟩
  orderType := orderType
  margin := ⟨1⟩
  fillable := ⟨quantity⟩
  orderHash := orderHash

/-- Two buys and a sell are placed in market 1. -/
def samplePlaced : Stores :=
  ((Stores.empty.setNewTransientDerivativeLimitOrderWithMetadata (sampleOrder .buy 5 1) none
    1).setNewTransientDerivativeLimitOrderWithMetadata (sampleOrder .buy 4 2) none
    1).setNewTransientDerivativeLimitOrderWithMetadata (sampleOrder .sell 4 3) none 1

/-- The first buy is filled in part, the second too and then cancelled, the sell is filled. -/
def sampleMatched : MatchedOrders where
  resting := []
  transient :=
    [⟨sampleOrder .buy 5 1, ⟨3⟩, false⟩, ⟨sampleOrder .buy 4 2, ⟨1⟩, true⟩,
      ⟨sampleOrder .sell 4 3, ⟨4⟩, false⟩]

theorem samplePlaced_steps : Relation.ReflTransGen Step Stores.empty samplePlaced :=
  ((Relation.ReflTransGen.single
    (.setNewTransient _ none 1 (by decide) (by decide) (Or.inl rfl))).tail
    (.setNewTransient _ none 1 (by decide) (by decide) (Or.inl rfl))).tail
    (.setNewTransient _ none 1 (by decide) (by decide) (Or.inl rfl))

theorem sampleMatched_valid : sampleMatched.Valid samplePlaced samplePlaced.transientOrders 1 := by
  refine ⟨⟨by decide, by decide, by decide, by decide⟩,
    ⟨by decide, by decide, by decide, by decide⟩, ?_⟩
  intro k o ho _
  have hmem : ∀ k ∈ samplePlaced.transientOrders.keys,
      ∃ e ∈ sampleMatched.transient, priceKey 1 e.order = k := by decide
  exact hmem k (mem_keys_iff.mpr ⟨o, ho⟩)

/-- A block with a partial fill, a partial fill with a cancellation, and a full fill: what
    is left counts, and nothing else does. -/
theorem order_metadata_exact_sample :
    ((samplePlaced.applyBatches [(1, sampleMatched)]).commit).Exact ∧
      (samplePlaced.applyBatches [(1, sampleMatched)]).commit.getSubaccountOrderbookMetadata
        ⟨1, 7, true⟩ = ⟨1, 0, 0, ⟨2⟩⟩ :=
  ⟨order_metadata_exact (.single (.mk [(1, sampleMatched)] samplePlaced_steps (by decide)
    (by simpa using sampleMatched_valid) (by decide))), by decide⟩

end Stores

end ExchangeOrderStore
