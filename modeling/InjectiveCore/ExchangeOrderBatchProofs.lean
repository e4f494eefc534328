import InjectiveCore.ExchangeOrderMetadataProofs

/-!
# Settling a batch keeps the metadata exact

At the end of a block the batch auction of a market has matched its resting orders and
all its transient ones. What became of them is written back in four passes: resting
orders that were filled, transient orders that were filled, and the orders of both kinds
that were cancelled on the way. A transient order with a remainder becomes resting; an
order that was filled and then cancelled takes part in two passes.

- `Tallied.settle`: one filled delta is a move of its order, whichever pass it is in.
- `Tallied.pass`: a pass over a list of deltas, with its metadata deltas applied.
- `applyBatch_tallied`: after the four passes nothing of the market is pending.
-/

namespace ExchangeOrderStore

open KeyedStore ExchangeFees ExchangeDerivativeFill ExchangeDerivativeBook
  ExchangeSubaccountOrders

namespace Stores

/-! ## One filled delta -/

/-- What is left of an order after a filled delta. -/
def remaining (d : DerivativeLimitOrderDelta LegacyDec) : Option LimitOrder :=
  if fillableQuantity d = 0 then none else some d.order

/-- The delta is about this order: its fill has been taken off the fillable quantity, and
    nothing or all of the rest is cancelled. -/
structure DeltaOf (o : LimitOrder) (d : DerivativeLimitOrderDelta LegacyDec) : Prop where
  order : d.order = { o with fillable := o.fillable - d.fillQuantity }
  left : 0 ≤ d.order.fillable
  cancel : d.cancelQuantity = 0 ∨ d.cancelQuantity = d.order.fillable

section Delta

variable {o : LimitOrder} {d : DerivativeLimitOrderDelta LegacyDec}

variable (h : DeltaOf o d)
include h

theorem DeltaOf.owner : d.order.orderInfo.subaccountID = o.orderInfo.subaccountID := by
  rw [h.order]

theorem DeltaOf.isReduceOnly : d.order.isReduceOnly = o.isReduceOnly := by
  rw [h.order]
  rfl

theorem DeltaOf.decrement :
    d.fillQuantity + d.cancelQuantity = o.fillable - fillableQuantity d := by
  have hfill : d.order.fillable = o.fillable - d.fillQuantity := by rw [h.order]
  rw [fillableQuantity, hfill]
  abel

theorem DeltaOf.fillableQuantity_nonneg : 0 ≤ fillableQuantity d := by
  rw [fillableQuantity]
  rcases h.cancel with hc | hc
  · rw [hc, sub_zero]
    exact h.left
  · rw [hc, sub_self]

theorem DeltaOf.fillableQuantity_eq (hne : fillableQuantity d ≠ 0) :
    fillableQuantity d = d.order.fillable := by
  rw [fillableQuantity] at hne ⊢
  rcases h.cancel with hc | hc
  · rw [hc, sub_zero]
  · rw [hc, sub_self] at hne
    exact absurd rfl hne

/-- What remains is the order with its new fillable quantity, which is positive. -/
theorem DeltaOf.remaining_some {o' : LimitOrder} (ho' : remaining d = some o') :
    o' = d.order ∧ 0 < o'.fillable := by
  rw [remaining] at ho'
  split at ho'
  · cases ho'
  rename_i hne
  cases ho'
  refine ⟨rfl, lt_of_le_of_ne h.left ?_⟩
  rw [← h.fillableQuantity_eq hne]
  exact Ne.symm hne

theorem DeltaOf.quantityIn_remaining : quantityIn (remaining d) = fillableQuantity d := by
  rw [remaining]
  split
  · next hzero => exact hzero.symm
  · next hne => exact (h.fillableQuantity_eq hne).symm

/-- What the delta does to the metadata delta of its subaccount: the order is taken out,
    and what remains of it put back in. -/
theorem DeltaOf.updateMetadataDelta_eq (m : SubaccountOrderbookMetadata) :
    updateMetadataDelta m d = m + (counted (remaining d) - contribution o) := by
  rw [updateMetadataDelta, remaining, decrementAggregate_eq, decrementCount_eq, h.decrement,
    h.isReduceOnly, quantityOf_sub]
  by_cases hz : fillableQuantity d = 0
  · have hnothing : quantityOf o.isReduceOnly (fillableQuantity d) = 0 := by
      rw [hz, ← sub_self (0 : LegacyDec), quantityOf_sub, sub_self]
    rw [if_pos hz, if_pos hz, hnothing, counted_none, contribution]
    abel
  · rw [if_neg hz, if_neg hz, h.fillableQuantity_eq hz, counted_some, contribution,
      contribution, h.isReduceOnly]
    abel

end Delta

section Settle

variable {s : Stores} {metadata : MetadataKey → SubaccountOrderbookMetadata}
  {pending : Store PriceKey LimitOrder} {marketID : Hash} {o : LimitOrder}
  {d : DerivativeLimitOrderDelta LegacyDec}

theorem updateOrder_resting (h : Tallied s metadata pending) (hd : DeltaOf o d)
    (ho : s.orders.lookup (priceKey marketID d.order) = some o) (isPartialCancel : Bool) :
    OrderMoved s (s.updateOrder marketID true isPartialCancel d) (priceKey marketID d.order)
      d.order.orderInfo.subaccountID (remaining d) none := by
  rw [updateOrder, remaining]
  by_cases hz : fillableQuantity d = 0
  · rw [if_pos hz, if_pos hz]
    exact orderMoved_written rfl (fun i => lookup_put _ i _ _) rfl
  · rw [if_neg hz, if_neg hz]
    have hindexed : s.ordersIndex.lookup
        ((priceKey marketID d.order).index d.order.orderInfo.subaccountID) =
          some (priceKey marketID d.order) :=
      (h.index _ _).mpr ⟨o, ho, by rw [hd.owner]⟩
    exact orderMoved_written rfl (lookup_eq_ite hindexed) rfl

variable {k : PriceKey}

theorem Tallied.index_pending (h : Tallied s metadata pending) (ho : pending.lookup k = some o)
    (owner : Hash) : s.ordersIndex.lookup (k.index owner) = none :=
  h.index_none (h.resting_none ho)
    (fun k' o' ho' heq => h.unique k' o' _ o ho' (Or.inr ho) heq) owner

theorem updateOrder_transient (h : Tallied s metadata pending)
    (ho : pending.lookup (priceKey marketID d.order) = some o) :
    OrderMoved s (s.updateOrder marketID false false d) (priceKey marketID d.order)
      d.order.orderInfo.subaccountID (remaining d) none := by
  rw [updateOrder, remaining]
  by_cases hz : fillableQuantity d = 0
  · rw [if_pos hz, if_pos hz]
    exact orderMoved_written (erase_eq_self (h.resting_none ho)).symm
      (lookup_eq_ite (h.index_pending ho _)) rfl
  · rw [if_neg hz, if_neg hz]
    exact orderMoved_written rfl (fun i => lookup_put _ i _ _) rfl

/-- A transient order that is going to be cancelled stays pending, as long as something of
    it remains. -/
theorem updateOrder_partial (h : Tallied s metadata pending) (hd : DeltaOf o d)
    (ho : pending.lookup (priceKey marketID d.order) = some o) :
    OrderMoved s (s.updateOrder marketID false true d) (priceKey marketID d.order)
      d.order.orderInfo.subaccountID none (remaining d) := by
  rw [updateOrder, remaining]
  by_cases hz : fillableQuantity d = 0
  · rw [if_pos hz, if_pos hz]
    exact orderMoved_written (erase_eq_self (h.resting_none ho)).symm
      (lookup_eq_ite (h.index_pending ho _)) rfl
  · rw [if_neg hz, if_neg hz]
    -- nothing is written
    refine ⟨(erase_eq_self (h.resting_none ho)).symm, lookup_eq_ite (h.index_pending ho _),
      fun _ _ => rfl, ?_, ?_, ?_⟩
    · intro o' hx
      cases hx
    · intro o' hy
      obtain ⟨z, hz⟩ := h.owned_pending _ o ho
      rw [← hd.owner] at hz
      exact ⟨z, hz⟩
    · intro hx hy
      cases hy

/-- How far a delta moves the price level of its order. -/
def levelChange (isResting isPartialCancel : Bool)
    (d : DerivativeLimitOrderDelta LegacyDec) : LegacyDec :=
  if isResting then -(d.fillQuantity + d.cancelQuantity)
  else if !isPartialCancel then fillableQuantity d
  else 0

/-- Where a pass leaves what remains of a resting order: in the store, and so it does a
    transient one that is not going to be cancelled. -/
def restingSlot (isResting isPartialCancel : Bool)
    (d : DerivativeLimitOrderDelta LegacyDec) : Option LimitOrder :=
  if isResting || !isPartialCancel then remaining d else none

/-- Where a pass leaves what remains of a transient order that is going to be cancelled. -/
def pendingSlot (isResting isPartialCancel : Bool)
    (d : DerivativeLimitOrderDelta LegacyDec) : Option LimitOrder :=
  if isResting || !isPartialCancel then none else remaining d

/-- The order a delta of a pass is about. -/
def source (isResting : Bool) (s : Stores) (pending : Store PriceKey LimitOrder)
    (k : PriceKey) : Option LimitOrder :=
  if isResting then s.orders.lookup k else pending.lookup k

variable {isResting : Bool}

theorem stored_of_source (h : source isResting s pending k = some o) : s.Stored pending k o := by
  cases isResting with
  | true => exact Or.inl h
  | false => exact Or.inr h

theorem updateOrder_moved (h : Tallied s metadata pending) (hd : DeltaOf o d)
    (ho : source isResting s pending (priceKey marketID d.order) = some o)
    (isPartialCancel : Bool) :
    OrderMoved s (s.updateOrder marketID isResting isPartialCancel d)
      (priceKey marketID d.order) d.order.orderInfo.subaccountID
      (restingSlot isResting isPartialCancel d) (pendingSlot isResting isPartialCancel d) := by
  cases isResting with
  | true => exact updateOrder_resting h hd ho isPartialCancel
  | false =>
    cases isPartialCancel with
    | false => exact updateOrder_transient h ho
    | true => exact updateOrder_partial h hd ho

theorem updateOrder_eq (s : Stores) (marketID : Hash) (isResting isPartialCancel : Bool)
    (d : DerivativeLimitOrderDelta LegacyDec) :
    ∃ orders index owned, s.updateOrder marketID isResting isPartialCancel d =
      { s with orders := orders, ordersIndex := index, subaccountOrders := owned } := by
  rw [updateOrder]
  split
  · cases isResting with
    | true | false => exact ⟨_, _, _, rfl⟩
  · cases isResting with
    | true => exact ⟨_, _, _, rfl⟩
    | false =>
      cases isPartialCancel with
      | true | false => exact ⟨_, _, _, rfl⟩

theorem updatePriceLevel_moved {isPartialCancel : Bool} (hd : DeltaOf o d)
    (hnonneg : 0 ≤ s.getOrderbookPriceLevelQuantity
      (priceKey marketID d.order).level) (hresting : isResting = true → o.fillable ≤
      s.getOrderbookPriceLevelQuantity (priceKey marketID d.order).level) :
    LevelMoved s (s.updatePriceLevel marketID isResting isPartialCancel d)
      (priceKey marketID d.order).level (levelChange isResting isPartialCancel d) := by
  cases isResting with
  | true =>
    refine decrementOrderbookPriceLevelQuantity_moved s _ (sub_nonneg.mpr ?_)
    rw [hd.decrement]
    exact (sub_le_self _ hd.fillableQuantity_nonneg).trans (hresting rfl)
  | false =>
    cases isPartialCancel with
    | true => exact levelMoved_zero s _
    | false =>
      exact incrementOrderbookPriceLevelQuantity_moved s _
        (add_nonneg hnonneg hd.fillableQuantity_nonneg)

theorem Tallied.slot_remaining (h : Tallied s metadata pending) (hd : DeltaOf o d)
    (ho : source isResting s pending (priceKey marketID d.order) = some o)
    (isPartialCancel : Bool) :
    Slot s pending (priceKey marketID d.order) d.order.orderInfo.subaccountID
      (restingSlot isResting isPartialCancel d) (pendingSlot isResting isPartialCancel d) where
  fits o' ho' := by
    have hrem : remaining d = some o' := by
      rw [restingSlot, pendingSlot] at ho'
      split at ho'
      · rcases ho' with ho' | ho'
        · exact ho'
        · cases ho'
      · rcases ho' with ho' | ho'
        · cases ho'
        · exact ho'
    obtain ⟨rfl, hpos⟩ := hd.remaining_some hrem
    exact ⟨rfl, hpos, rfl⟩
  single o' ho' := by
    rw [restingSlot] at ho'
    rw [pendingSlot]
    split
    · rfl
    · next hn => rw [if_neg hn] at ho'; cases ho'
  fresh k' o' ho' heq := h.unique k' o' _ o ho' (stored_of_source ho) heq
  kept o' ho' := by rw [h.stored_unique (stored_of_source ho) ho', hd.owner]

/-- The metadata as it will be once the deltas of a pass are applied. -/
def due (marketID : Hash) (acc : Stores × MetadataDeltas) (key : MetadataKey) :
    SubaccountOrderbookMetadata :=
  acc.1.getSubaccountOrderbookMetadata key + if key.marketID = marketID then
    ((acc.2.side key.isBuy).lookup key.subaccountID).getD 0 else 0

theorem side_update (m : MetadataDeltas) (d : DerivativeLimitOrderDelta LegacyDec)
    (isBuy : Bool) (subaccountID : Hash) :
    ((m.update d).side isBuy).lookup subaccountID =
      if isBuy = d.order.orderType.isBuy ∧ subaccountID = d.order.orderInfo.subaccountID then
        some (updateMetadataDelta (((m.side isBuy).lookup subaccountID).getD 0) d)
      else (m.side isBuy).lookup subaccountID := by
  have hwrite : ∀ deltas : Store Hash SubaccountOrderbookMetadata,
      (put d.order.orderInfo.subaccountID (some (updateMetadataDelta
        ((deltas.lookup d.order.orderInfo.subaccountID).getD newSubaccountOrderbookMetadata)
        d)) deltas).lookup subaccountID =
      if subaccountID = d.order.orderInfo.subaccountID then
        some (updateMetadataDelta ((deltas.lookup subaccountID).getD 0) d)
      else deltas.lookup subaccountID := by
    intro deltas
    rw [lookup_put]
    split
    · next hs => rw [hs]; rfl
    · rfl
  simp only [MetadataDeltas.update, MetadataDeltas.side]
  cases d.order.orderType.isBuy with
  | true =>
    cases isBuy with
    | true => simpa using hwrite m.buys
    | false => simp
  | false =>
    cases isBuy with
    | true => simp
    | false => simpa using hwrite m.sells

variable {acc : Stores × MetadataDeltas}

theorem due_applyFilledDelta (hd : DeltaOf o d) {s' : Stores}
    (hmetadata : s'.metadata = acc.1.metadata) (key : MetadataKey) :
    due marketID (s', acc.2.update d) key = due marketID acc key +
      if key = (priceKey marketID d.order).side d.order.orderInfo.subaccountID then
        counted (remaining d) - contribution o else 0 := by
  rw [due, due, getSubaccountOrderbookMetadata, hmetadata, side_update, add_assoc]
  refine congrArg _ ?_
  by_cases hm : key.marketID = marketID
  · rw [if_pos hm, if_pos hm]
    by_cases hk : key = (priceKey marketID d.order).side d.order.orderInfo.subaccountID
    · rw [if_pos hk, if_pos ⟨congrArg MetadataKey.isBuy hk, congrArg MetadataKey.subaccountID hk⟩,
        Option.getD_some, hd.updateMetadataDelta_eq]
    · rw [if_neg hk, add_zero, if_neg]
      rintro ⟨hb, hs⟩
      exact hk (by cases key; cases hm; cases hb; cases hs; rfl)
  · have hk : key ≠ (priceKey marketID d.order).side d.order.orderInfo.subaccountID :=
      fun h => hm (congrArg MetadataKey.marketID h)
    rw [if_neg hm, if_neg hm, if_neg hk, add_zero]

theorem levelChange_eq (h : Tallied s metadata pending) (hd : DeltaOf o d)
    (ho : source isResting s pending (priceKey marketID d.order) = some o)
    (isPartialCancel : Bool) :
    levelChange isResting isPartialCancel d =
      quantityIn (restingSlot isResting isPartialCancel d) -
        quantityIn (s.orders.lookup (priceKey marketID d.order)) := by
  cases isResting with
  | true =>
    have ho : s.orders.lookup (priceKey marketID d.order) = some o := ho
    rw [ho]
    show -(d.fillQuantity + d.cancelQuantity) = quantityIn (remaining d) - o.fillable
    rw [hd.quantityIn_remaining, hd.decrement, neg_sub]
  | false =>
    rw [h.resting_none ho]
    show _ = _ - (0 : LegacyDec)
    rw [sub_zero]
    cases isPartialCancel with
    | true => rfl
    | false => exact hd.quantityIn_remaining.symm

theorem counted_slots (h : Tallied s metadata pending)
    (ho : source isResting s pending (priceKey marketID d.order) = some o)
    (isPartialCancel : Bool) :
    counted (restingSlot isResting isPartialCancel d) -
        counted (s.orders.lookup (priceKey marketID d.order)) +
      (counted (pendingSlot isResting isPartialCancel d) -
        counted (pending.lookup (priceKey marketID d.order))) =
      counted (remaining d) - contribution o := by
  cases isResting with
  | true =>
    have ho : s.orders.lookup (priceKey marketID d.order) = some o := ho
    rw [ho, h.disjoint _ o ho]
    show counted (remaining d) - contribution o + (0 - 0) = _
    abel
  | false =>
    have ho : pending.lookup (priceKey marketID d.order) = some o := ho
    rw [ho, h.resting_none ho]
    cases isPartialCancel with
    | true =>
      show 0 - 0 + (counted (remaining d) - contribution o) = _
      abel
    | false =>
      show counted (remaining d) - 0 + (0 - contribution o) = _
      abel

/-- **ONE DELTA**: a filled delta moves its order to where its pass leaves it. -/
theorem Tallied.settle (h : Tallied acc.1 (due marketID acc) pending) (hd : DeltaOf o d)
    (ho : source isResting acc.1 pending (priceKey marketID d.order) = some o)
    {partialCancelOrders : List Hash} {acc' : Stores × MetadataDeltas} {c : Bool}
    (hacc : applyFilledDelta marketID isResting partialCancelOrders acc d = acc')
    (hc : decide (d.order.orderHash ∈ partialCancelOrders) = c) :
    Tallied acc'.1 (due marketID acc')
        (put (priceKey marketID d.order) (pendingSlot isResting c d) pending) ∧
      acc'.1.orders = put (priceKey marketID d.order) (restingSlot isResting c d) acc.1.orders ∧
      acc'.1.transientOrders = acc.1.transientOrders := by
  obtain ⟨orders, index, owned, hupdate⟩ := updateOrder_eq acc.1 marketID isResting c d
  have hmoved := updateOrder_moved h hd ho c
  rw [hupdate] at hmoved
  rw [applyFilledDelta, hc, hupdate] at hacc
  have hlevel : LevelMoved
      { acc.1 with orders := orders, ordersIndex := index, subaccountOrders := owned } acc'.1
      (priceKey marketID d.order).level (levelChange isResting c d) := by
    rw [← hacc]
    refine updatePriceLevel_moved hd (h.level_nonneg _) ?_
    rintro rfl
    exact h.fillable_le_level ho
  subst hacc
  have hmetadata : ∀ key, due marketID _ key = _ := due_applyFilledDelta hd hlevel.metadata
  simp only [← counted_slots h ho c] at hmetadata
  have hmove := (h.slot_remaining hd ho c).move hlevel rfl rfl hmoved
    (levelChange_eq h hd ho c) hmetadata
  exact ⟨h.move hmove, hmove.orders, hlevel.same.transientOrders⟩

end Settle

/-! ## A pass -/

section Pass

variable {s : Stores} {metadata : MetadataKey → SubaccountOrderbookMetadata}
  {pending : Store PriceKey LimitOrder} {marketID : Hash} {isResting : Bool}

/-- The deltas of a pass: each about an order of its own. -/
structure PassOf (s : Stores) (pending : Store PriceKey LimitOrder) (marketID : Hash)
    (isResting : Bool) (ds : List (DerivativeLimitOrderDelta LegacyDec)) : Prop where
  source : ∀ d ∈ ds, ∃ o,
    source isResting s pending (priceKey marketID d.order) = some o ∧ DeltaOf o d
  nodup : (ds.map (fun d => d.order.orderHash)).Nodup

/-- Where a pass leaves the orders. -/
structure Passed (marketID : Hash) (isResting : Bool) (partialCancelOrders : List Hash)
    (ds : List (DerivativeLimitOrderDelta LegacyDec)) (s s' : Stores)
    (pending pending' : Store PriceKey LimitOrder) : Prop where
  settled : ∀ d ∈ ds,
    s'.orders.lookup (priceKey marketID d.order) =
        restingSlot isResting (decide (d.order.orderHash ∈ partialCancelOrders)) d ∧
      pending'.lookup (priceKey marketID d.order) =
        pendingSlot isResting (decide (d.order.orderHash ∈ partialCancelOrders)) d
  frame : ∀ k, (∀ d ∈ ds, k ≠ priceKey marketID d.order) →
    s'.orders.lookup k = s.orders.lookup k ∧ pending'.lookup k = pending.lookup k
  transientOrders : s'.transientOrders = s.transientOrders

theorem foldl_applyFilledDelta {partialCancelOrders : List Hash}
    {ds : List (DerivativeLimitOrderDelta LegacyDec)} {acc acc' : Stores × MetadataDeltas}
    (h : Tallied acc.1 (due marketID acc) pending)
    (hds : PassOf acc.1 pending marketID isResting ds)
    (hacc : ds.foldl (applyFilledDelta marketID isResting partialCancelOrders) acc = acc') :
    ∃ pending', Tallied acc'.1 (due marketID acc') pending' ∧
      Passed marketID isResting partialCancelOrders ds acc.1 acc'.1 pending pending' := by
  induction ds generalizing acc pending with
  | nil =>
    subst hacc
    exact ⟨pending, h, fun _ hd => (List.not_mem_nil hd).elim, fun _ _ => ⟨rfl, rfl⟩, rfl⟩
  | cons d ds ih =>
    obtain ⟨o, ho, hd⟩ := hds.source d List.mem_cons_self
    obtain ⟨htallied, horders, htransient⟩ := h.settle hd ho rfl rfl
    have hnodup := hds.nodup
    rw [List.map_cons, List.nodup_cons] at hnodup
    -- the other deltas are about other keys
    have hother : ∀ d' ∈ ds, priceKey marketID d'.order ≠ priceKey marketID d.order := by
      intro d' hd' heq
      exact hnodup.1 (List.mem_map.mpr ⟨d', hd', congrArg PriceKey.orderHash heq⟩)
    have hsource := fun d' hd' => hds.source d' (List.mem_cons_of_mem d hd')
    obtain ⟨pending', hfinal, hpassed⟩ := ih htallied ⟨fun d' hd' => by
      rw [Stores.source, horders, lookup_put_of_ne (hother d' hd'),
        lookup_put_of_ne (hother d' hd')]
      exact hsource d' hd', hnodup.2⟩ hacc
    refine ⟨pending', hfinal, ?_, ?_, hpassed.transientOrders.trans htransient⟩
    · intro d' hd'
      rcases List.mem_cons.mp hd' with rfl | hd'
      · obtain ⟨hrest, hpend⟩ := hpassed.frame (priceKey marketID d'.order)
          (fun d'' hd'' => (hother d'' hd'').symm)
        rw [hrest, hpend, horders, lookup_put_self, lookup_put_self]
        exact ⟨rfl, rfl⟩
      · exact hpassed.settled d' hd'
    · intro k hk
      obtain ⟨hrest, hpend⟩ := hpassed.frame k (fun d' hd' => hk d' (List.mem_cons_of_mem d hd'))
      have hne := hk d List.mem_cons_self
      rw [hrest, hpend, horders, lookup_put_of_ne hne, lookup_put_of_ne hne]
      exact ⟨rfl, rfl⟩

theorem getSubaccountOrderbookMetadata_foldl (marketID : Hash) (isBuy : Bool)
    (delta : Hash → SubaccountOrderbookMetadata) (subaccountIDs : List Hash)
    (hnodup : subaccountIDs.Nodup) (s : Stores) (key : MetadataKey) :
    (subaccountIDs.foldl (fun s subaccountID =>
        s.setSubaccountOrderbookMetadata ⟨marketID, subaccountID, isBuy⟩
          (applyDelta (s.getSubaccountOrderbookMetadata ⟨marketID, subaccountID, isBuy⟩)
            (delta subaccountID))) s).getSubaccountOrderbookMetadata key =
      s.getSubaccountOrderbookMetadata key +
        if key.marketID = marketID ∧ key.isBuy = isBuy ∧ key.subaccountID ∈ subaccountIDs then
          delta key.subaccountID else 0 := by
  induction subaccountIDs generalizing s with
  | nil =>
    rw [if_neg (fun h => List.not_mem_nil h.2.2), add_zero]
    rfl
  | cons a rest ih =>
    obtain ⟨ha, hrest⟩ := List.nodup_cons.mp hnodup
    rw [List.foldl_cons, ih hrest, getSubaccountOrderbookMetadata_put (s := s)
      ⟨marketID, a, isBuy⟩ rfl]
    by_cases hk : key = ⟨marketID, a, isBuy⟩
    · subst hk
      rw [if_pos rfl, if_neg (fun h => ha h.2.2), add_zero,
        if_pos ⟨rfl, rfl, List.mem_cons_self⟩, applyDelta_eq_add]
    · rw [if_neg hk]
      refine congrArg _ (if_congr ?_ rfl rfl)
      constructor
      · rintro ⟨hm, hb, hs⟩
        exact ⟨hm, hb, List.mem_cons_of_mem a hs⟩
      · rintro ⟨hm, hb, hs⟩
        rcases List.mem_cons.mp hs with hs | hs
        · exact absurd (by cases key; cases hm; cases hb; cases hs; rfl) hk
        · exact ⟨hm, hb, hs⟩

/-- Applying the deltas of a side adds each to its subaccount, and touches nothing but the
    metadata. -/
theorem applySubaccountOrderbookMetadataDeltas_spec (s : Stores) (marketID : Hash)
    (isBuy : Bool) (deltas : Store Hash SubaccountOrderbookMetadata) :
    (∃ store, s.applySubaccountOrderbookMetadataDeltas marketID isBuy deltas =
        { s with metadata := store }) ∧
      ∀ key, (s.applySubaccountOrderbookMetadataDeltas marketID isBuy
          deltas).getSubaccountOrderbookMetadata key =
        s.getSubaccountOrderbookMetadata key + if key.marketID = marketID ∧ key.isBuy = isBuy
          then (deltas.lookup key.subaccountID).getD 0 else 0 := by
  constructor
  · rw [applySubaccountOrderbookMetadataDeltas]
    generalize deltas.keys.insertionSort (· ≤ ·) = ids
    induction ids generalizing s with
    | nil => exact ⟨_, rfl⟩
    | cons a rest ih =>
      obtain ⟨store, hstore⟩ := ih (s.setSubaccountOrderbookMetadata ⟨marketID, a, isBuy⟩
        (applyDelta (s.getSubaccountOrderbookMetadata ⟨marketID, a, isBuy⟩)
          ((deltas.lookup a).getD newSubaccountOrderbookMetadata)))
      exact ⟨store, hstore⟩
  · intro key
    have hperm := List.perm_insertionSort (· ≤ ·) deltas.keys
    rw [applySubaccountOrderbookMetadataDeltas]
    refine (getSubaccountOrderbookMetadata_foldl marketID isBuy
      (fun a => (deltas.lookup a).getD newSubaccountOrderbookMetadata) _
      (hperm.nodup_iff.mpr deltas.keys_nodup) s key).trans (congrArg _ ?_)
    by_cases hk : key.marketID = marketID ∧ key.isBuy = isBuy
    · rw [if_pos hk]
      by_cases hmem : key.subaccountID ∈ deltas.keys
      · rw [if_pos ⟨hk.1, hk.2, hperm.mem_iff.mpr hmem⟩]
        rfl
      · rw [if_neg (fun h => hmem (hperm.mem_iff.mp h.2.2)), AList.lookup_eq_none.mpr hmem]
        rfl
    · rw [if_neg hk, if_neg (fun h => hk ⟨h.1, h.2.1⟩)]

variable {ds : List (DerivativeLimitOrderDelta LegacyDec)} {s' : Stores}

/-- **ONE PASS**: the deltas are written and their metadata applied. -/
theorem Tallied.pass (h : Tallied s s.getSubaccountOrderbookMetadata pending)
    (hds : PassOf s pending marketID isResting ds) (partialCancelOrders : List Hash)
    (hs' : s.updateDerivativeLimitOrdersFromFilledDeltas marketID isResting ds
      partialCancelOrders = s') :
    ∃ pending', Tallied s' s'.getSubaccountOrderbookMetadata pending' ∧
      Passed marketID isResting partialCancelOrders ds s s' pending pending' := by
  rw [updateDerivativeLimitOrdersFromFilledDeltas] at hs'
  split at hs'
  · next hempty =>
    rw [List.isEmpty_iff] at hempty
    subst hempty hs'
    exact ⟨pending, h, fun _ hd => (List.not_mem_nil hd).elim, fun _ _ => ⟨rfl, rfl⟩, rfl⟩
  have hdue : due marketID (s, (⟨∅, ∅⟩ : MetadataDeltas)) =
      s.getSubaccountOrderbookMetadata := by
    funext key
    rw [due]
    refine (congrArg _ ?_).trans (add_zero _)
    cases key.isBuy with
    | true | false => exact ite_self _
  generalize hr : ds.foldl (applyFilledDelta marketID isResting partialCancelOrders)
    (s, ⟨∅, ∅⟩) = r at hs'
  obtain ⟨pending', htallied, hpassed⟩ := foldl_applyFilledDelta (hdue ▸ h) hds hr
  obtain ⟨⟨store, hstore⟩, hbuys⟩ :=
    applySubaccountOrderbookMetadataDeltas_spec r.1 marketID true r.2.buys
  obtain ⟨⟨store', hstore'⟩, hsells⟩ := applySubaccountOrderbookMetadataDeltas_spec
    (r.1.applySubaccountOrderbookMetadataDeltas marketID true r.2.buys) marketID false
    r.2.sells
  change (r.1.applySubaccountOrderbookMetadataDeltas marketID true
    r.2.buys).applySubaccountOrderbookMetadataDeltas marketID false r.2.sells = s' at hs'
  rw [hs'] at hstore' hsells
  have hall : s'.getSubaccountOrderbookMetadata = due marketID r := by
    funext key
    rw [hsells, hbuys, due, add_assoc]
    refine congrArg _ ?_
    by_cases hm : key.marketID = marketID
    · cases hb : key.isBuy with
      | true | false => simp [hm, MetadataDeltas.side]
    · simp [hm]
  rw [hall, hstore', hstore]
  exact ⟨pending', htallied.withMetadata store', hpassed.settled, hpassed.frame,
    hpassed.transientOrders⟩

variable {pending' : Store PriceKey LimitOrder} {partialCancelOrders : List Hash}

theorem PassOf.frame {isResting' : Bool} {ds' : List (DerivativeLimitOrderDelta LegacyDec)}
    (h : PassOf s pending marketID isResting ds)
    (hp : Passed marketID isResting' partialCancelOrders ds' s s' pending pending')
    (hne : ∀ d ∈ ds, ∀ d' ∈ ds', priceKey marketID d.order ≠ priceKey marketID d'.order) :
    PassOf s' pending' marketID isResting ds := by
  refine ⟨?_, h.nodup⟩
  intro d hd
  obtain ⟨o, ho, hdo⟩ := h.source d hd
  obtain ⟨horders, hpending⟩ := hp.frame (priceKey marketID d.order) (hne d hd)
  refine ⟨o, ?_, hdo⟩
  rw [← ho, Stores.source, Stores.source, horders, hpending]

theorem Tallied.congr_pending (h : Tallied s metadata pending)
    (hk : ∀ k, pending'.lookup k = pending.lookup k) : Tallied s metadata pending' := by
  have hstored : s.Stored pending' = s.Stored pending := by
    funext k o
    rw [Stored, Stored, hk]
  exact { h with
    key := hstored ▸ h.key
    disjoint := fun k o ho => (hk k).trans (h.disjoint k o ho)
    unique := hstored ▸ h.unique
    owned_pending := fun k o ho => h.owned_pending k o ((hk k).symm.trans ho)
    owned_sound := hstored ▸ h.owned_sound
    metadata := fun key => (h.metadata key).trans (by rw [total_eq_of_lookup _ hk]) }

/-- A key of another market is in no pass. -/
theorem Passed.foreign
    (hp : Passed marketID isResting partialCancelOrders ds s s' pending pending') {k : PriceKey}
    (hk : k.marketID ≠ marketID) :
    s'.orders.lookup k = s.orders.lookup k ∧ pending'.lookup k = pending.lookup k :=
  hp.frame k (fun _ _ heq => hk (congrArg PriceKey.marketID heq))

theorem Passed.pending_eq
    (hp : Passed marketID true partialCancelOrders ds s s' pending pending')
    (h : Tallied s metadata pending) (hds : PassOf s pending marketID true ds) (k : PriceKey) :
    pending'.lookup k = pending.lookup k := by
  by_cases hmem : ∃ d ∈ ds, k = priceKey marketID d.order
  · obtain ⟨d, hd, rfl⟩ := hmem
    obtain ⟨o, ho, -⟩ := hds.source d hd
    exact (hp.settled d hd).2.trans (h.disjoint _ o ho).symm
  · push Not at hmem
    exact (hp.frame k hmem).2

theorem Passed.pending_none
    (hp : Passed marketID isResting partialCancelOrders ds s s' pending pending')
    (hds : PassOf s pending marketID isResting ds) {k : PriceKey}
    (hk : pending.lookup k = none) : pending'.lookup k = none := by
  by_cases hmem : ∃ d ∈ ds, k = priceKey marketID d.order
  · obtain ⟨d, hd, rfl⟩ := hmem
    cases isResting with
    | true => exact (hp.settled d hd).2
    | false =>
      obtain ⟨o, ho, -⟩ := hds.source d hd
      cases hk.symm.trans ho
  · push Not at hmem
    rw [(hp.frame k hmem).2]
    exact hk

end Pass

/-! ## A batch -/

/-- What became of an order in the auction: its fill taken off. -/
def settledOrder (e : BookFill LegacyDec) : LimitOrder :=
  { e.order with fillable := e.order.fillable - e.fillQuantity }

/-- The delta of an order that was filled. -/
def filledDelta (e : BookFill LegacyDec) : DerivativeLimitOrderDelta LegacyDec :=
  ⟨settledOrder e, e.fillQuantity, 0⟩

/-- The delta of an order that was cancelled, after its fill if it had one. -/
def cancelledDelta (e : BookFill LegacyDec) : DerivativeLimitOrderDelta LegacyDec :=
  ⟨settledOrder e, 0, (settledOrder e).fillable⟩

/-- An order cancelled without a fill has no filled delta. -/
def keepsFill (e : BookFill LegacyDec) : Bool := !e.isCancelled || decide (0 < e.fillQuantity)

/-- Filled first, then cancelled. -/
def isPartialCancel (e : BookFill LegacyDec) : Bool :=
  e.isCancelled && decide (0 < e.fillQuantity)

/-- `RestingLimitOrderFilledDeltas`, `TransientLimitOrderFilledDeltas`. -/
def filledDeltas (es : List (BookFill LegacyDec)) : List (DerivativeLimitOrderDelta LegacyDec) :=
  (es.filter keepsFill).map filledDelta

/-- `RestingLimitOrderCancelledDeltas`, `TransientLimitOrderCancelledDeltas`. -/
def cancelledDeltas (es : List (BookFill LegacyDec)) :
    List (DerivativeLimitOrderDelta LegacyDec) :=
  (es.filter (·.isCancelled)).map cancelledDelta

/-- What the auction of a market made of its orders. -/
structure MatchedOrders where
  resting : List (BookFill LegacyDec)
  transient : List (BookFill LegacyDec)

/-- `PartialCancelOrders`. -/
def MatchedOrders.partialCancelOrders (m : MatchedOrders) : List Hash :=
  ((m.resting ++ m.transient).filter isPartialCancel).map (·.order.orderHash)

/-- The writes of `PersistDerivativeMatchingExecution` for one market. -/
def applyBatch (s : Stores) (marketID : Hash) (m : MatchedOrders) : Stores :=
  let s := s.updateDerivativeLimitOrdersFromFilledDeltas marketID true
    (filledDeltas m.resting) []
  let s := s.updateDerivativeLimitOrdersFromFilledDeltas marketID false
    (filledDeltas m.transient) m.partialCancelOrders
  let s := s.updateDerivativeLimitOrdersFromFilledDeltas marketID true
    (cancelledDeltas m.resting) []
  s.updateDerivativeLimitOrdersFromFilledDeltas marketID false
    (cancelledDeltas m.transient) m.partialCancelOrders

/-- The writes of `PersistSingleDerivativeMarketOrderExecution`: market orders and
    liquidations are matched against resting orders only. -/
def applyMarketBatch (s : Stores) (marketID : Hash) (resting : List (BookFill LegacyDec)) :
    Stores :=
  let s := s.updateDerivativeLimitOrdersFromFilledDeltas marketID true (filledDeltas resting) []
  s.updateDerivativeLimitOrdersFromFilledDeltas marketID true (cancelledDeltas resting) []

/-- What matching guarantees about the orders it returns: they are stored, none comes
    twice, none is overfilled, and only an order with a remainder is cancelled. -/
structure MatchOf (s : Stores) (pending : Store PriceKey LimitOrder) (marketID : Hash)
    (isResting : Bool) (es : List (BookFill LegacyDec)) : Prop where
  stored : ∀ e ∈ es, source isResting s pending (priceKey marketID e.order) = some e.order
  nodup : (es.map (·.order.orderHash)).Nodup
  bounds : ∀ e ∈ es, 0 ≤ e.fillQuantity ∧ e.fillQuantity ≤ e.order.fillable
  cancelled : ∀ e ∈ es, e.isCancelled = true → e.fillQuantity < e.order.fillable

section Batch

variable {s : Stores} {metadata : MetadataKey → SubaccountOrderbookMetadata}
  {pending : Store PriceKey LimitOrder} {marketID : Hash} {isResting : Bool}
  {es : List (BookFill LegacyDec)} {e : BookFill LegacyDec}

theorem MatchOf.eq_of_hash (h : MatchOf s pending marketID isResting es)
    {e' : BookFill LegacyDec} (he : e ∈ es) (he' : e' ∈ es)
    (hhash : e.order.orderHash = e'.order.orderHash) : e = e' :=
  List.inj_on_of_nodup_map h.nodup he he' hhash

variable {d : DerivativeLimitOrderDelta LegacyDec}

theorem mem_filledDeltas (hd : d ∈ filledDeltas es) :
    ∃ e ∈ es, keepsFill e = true ∧ d = filledDelta e := by
  obtain ⟨e, he, rfl⟩ := List.mem_map.mp hd
  exact ⟨e, List.mem_of_mem_filter he, (List.mem_filter.mp he).2, rfl⟩

theorem MatchOf.filled (h : MatchOf s pending marketID isResting es) :
    PassOf s pending marketID isResting (filledDeltas es) := by
  refine ⟨?_, ?_⟩
  · intro d hd
    obtain ⟨e, he, -, rfl⟩ := mem_filledDeltas hd
    refine ⟨e.order, h.stored e he, rfl, ?_, Or.inl rfl⟩
    exact sub_nonneg.mpr (h.bounds e he).2
  · rw [filledDeltas, List.map_map]
    exact (List.filter_sublist.map _).nodup h.nodup

theorem mem_cancelledDeltas (hd : d ∈ cancelledDeltas es) :
    ∃ e ∈ es, e.isCancelled = true ∧ d = cancelledDelta e := by
  obtain ⟨e, he, rfl⟩ := List.mem_map.mp hd
  exact ⟨e, List.mem_of_mem_filter he, (List.mem_filter.mp he).2, rfl⟩

variable {s' : Stores} {pending' : Store PriceKey LimitOrder}

/-- The second pass is about what the first one left of the cancelled orders. -/
theorem MatchOf.cancelledPass {partialCancelOrders : List Hash}
    (h : MatchOf s pending marketID isResting es)
    (hp : Passed marketID isResting partialCancelOrders (filledDeltas es) s s' pending pending')
    (hunfilled : isResting = false →
      ∀ e ∈ es, isPartialCancel e = true → e.order.orderHash ∈ partialCancelOrders) :
    PassOf s' pending' marketID isResting (cancelledDeltas es) := by
  refine ⟨?_, ?_⟩
  · intro d hd
    obtain ⟨e, he, hc, rfl⟩ := mem_cancelledDeltas hd
    have hlt := h.cancelled e he hc
    have hdelta : DeltaOf (settledOrder e) (cancelledDelta e) :=
      ⟨by rw [cancelledDelta, sub_zero], sub_nonneg.mpr hlt.le, Or.inr rfl⟩
    refine ⟨settledOrder e, ?_, hdelta⟩
    show Stores.source isResting s' pending' (priceKey marketID e.order) = _
    by_cases hpos : 0 < e.fillQuantity
    · -- the filled pass has left the remainder
      have hmem : filledDelta e ∈ filledDeltas es :=
        List.mem_map.mpr ⟨e, List.mem_filter.mpr ⟨he, by simp [keepsFill, hpos]⟩, rfl⟩
      have hrem : remaining (filledDelta e) = some (settledOrder e) := by
        refine if_neg ?_
        rw [fillableQuantity]
        show e.order.fillable - e.fillQuantity - 0 ≠ 0
        rw [sub_zero]
        exact (sub_pos.mpr hlt).ne'
      obtain ⟨horders, hpending⟩ := hp.settled _ hmem
      cases isResting with
      | true => exact horders.trans hrem
      | false =>
        have hin : (filledDelta e).order.orderHash ∈ partialCancelOrders :=
          hunfilled rfl e he (by simp [isPartialCancel, hc, hpos])
        rw [decide_eq_true hin] at hpending
        exact hpending.trans hrem
    · -- no filled delta is about this order
      have hzero : e.fillQuantity = 0 := le_antisymm (not_lt.mp hpos) (h.bounds e he).1
      have hsame : settledOrder e = e.order := by rw [settledOrder, hzero, sub_zero]
      have hnot : ∀ d ∈ filledDeltas es,
          priceKey marketID e.order ≠ priceKey marketID d.order := by
        intro d hd heq
        obtain ⟨e', he', hk', rfl⟩ := mem_filledDeltas hd
        have := h.eq_of_hash he he' (congrArg PriceKey.orderHash heq)
        subst this
        simp [keepsFill, hc, hzero] at hk'
      obtain ⟨horders, hpending⟩ := hp.frame _ hnot
      rw [Stores.source, horders, hpending, hsame]
      exact h.stored e he
  · rw [cancelledDeltas, List.map_map]
    exact (List.filter_sublist.map _).nodup h.nodup

theorem MatchOf.frame (h : MatchOf s pending marketID isResting es)
    (hsame : ∀ e ∈ es, s'.orders.lookup (priceKey marketID e.order) =
        s.orders.lookup (priceKey marketID e.order) ∧
      pending'.lookup (priceKey marketID e.order) = pending.lookup (priceKey marketID e.order)) :
    MatchOf s' pending' marketID isResting es := by
  refine ⟨?_, h.nodup, h.bounds, h.cancelled⟩
  intro e he
  rw [Stores.source, (hsame e he).1, (hsame e he).2]
  exact h.stored e he

theorem applyMarketBatch_midBlock (h : s.MidBlock)
    (hm : MatchOf s s.transientOrders marketID true es) :
    (s.applyMarketBatch marketID es).MidBlock := by
  obtain ⟨pending₁, h₁, hp₁⟩ := Tallied.pass h hm.filled [] rfl
  have hc := hm.cancelledPass hp₁ (fun hf => Bool.noConfusion hf)
  obtain ⟨pending₂, h₂, hp₂⟩ := h₁.pass hc [] rfl
  refine h₂.congr_pending ?_
  intro k
  rw [hp₂.pending_eq h₁ hc, hp₁.pending_eq h hm.filled]
  exact congrArg (AList.lookup k) (hp₂.transientOrders.trans hp₁.transientOrders)

/-- The orders of a market that the auction hands back: some of the resting ones and all
    the pending ones. -/
structure MatchedOrders.Valid (m : MatchedOrders) (s : Stores)
    (pending : Store PriceKey LimitOrder) (marketID : Hash) : Prop where
  resting : MatchOf s pending marketID true m.resting
  transient : MatchOf s pending marketID false m.transient
  all : ∀ k o, pending.lookup k = some o → k.marketID = marketID →
    ∃ e ∈ m.transient, priceKey marketID e.order = k

theorem pendingSlot_cancelled (e : BookFill LegacyDec) (isPartialCancel : Bool) :
    pendingSlot false isPartialCancel (cancelledDelta e) = none := by
  cases isPartialCancel with
  | false => rfl
  | true =>
    show remaining (cancelledDelta e) = none
    exact if_pos (sub_self _)

variable {m : MatchedOrders}

theorem MatchOf.notMem_partialCancelOrders
    (h : MatchOf s pending marketID isResting m.transient)
    (hapart : ∀ e ∈ m.resting, ∀ e' ∈ m.transient, e.order.orderHash ≠ e'.order.orderHash)
    (he : e ∈ m.transient) (hc : ¬e.isCancelled = true) :
    e.order.orderHash ∉ m.partialCancelOrders := by
  intro hin
  obtain ⟨e', he', hhash⟩ := List.mem_map.mp hin
  obtain ⟨hmem, hunfilled⟩ := List.mem_filter.mp he'
  rcases List.mem_append.mp hmem with hmem | hmem
  · exact hapart e' hmem e he hhash
  · cases h.eq_of_hash hmem he hhash
    simp [isPartialCancel, hc] at hunfilled

/-- **ONE BATCH**: after the four passes nothing of the market is pending, and nothing of
    other markets has changed. -/
theorem applyBatch_tallied (h : Tallied s s.getSubaccountOrderbookMetadata pending)
    (hm : m.Valid s pending marketID) :
    ∃ pending', Tallied (s.applyBatch marketID m)
        (s.applyBatch marketID m).getSubaccountOrderbookMetadata pending' ∧
      (∀ k, pending'.lookup k = if k.marketID = marketID then none else pending.lookup k) ∧
      (∀ k, k.marketID ≠ marketID → (s.applyBatch marketID m).orders.lookup k = s.orders.lookup k) ∧
      (s.applyBatch marketID m).transientOrders = s.transientOrders := by
  -- resting and transient orders are under different keys, and share no hash
  have hapart : ∀ e ∈ m.resting, ∀ e' ∈ m.transient,
      e.order.orderHash ≠ e'.order.orderHash := by
    intro e he e' he' heq
    have ho := hm.resting.stored e he
    have ho' := hm.transient.stored e' he'
    have hkey : priceKey marketID e.order = priceKey marketID e'.order :=
      h.unique _ _ _ _ (Or.inl ho) (Or.inr ho') heq
    have hnone := h.disjoint _ _ ho
    rw [hkey] at hnone
    cases hnone.symm.trans ho'
  obtain ⟨pending₁, h₁, hp₁⟩ := h.pass hm.resting.filled [] rfl
  have ht₁ : MatchOf (s.updateDerivativeLimitOrdersFromFilledDeltas marketID true
      (filledDeltas m.resting) []) pending₁ marketID false m.transient := by
    refine hm.transient.frame (fun e he => hp₁.frame _ ?_)
    intro d hd heq
    obtain ⟨e', he', -, rfl⟩ := mem_filledDeltas hd
    exact hapart e' he' e he (congrArg PriceKey.orderHash heq).symm
  have hc₁ := hm.resting.cancelledPass hp₁ (fun hf => Bool.noConfusion hf)
  obtain ⟨pending₂, h₂, hp₂⟩ := h₁.pass ht₁.filled m.partialCancelOrders rfl
  have hc₂ := hc₁.frame hp₂ (by
    intro d hd d' hd' heq
    obtain ⟨e, he, -, rfl⟩ := mem_cancelledDeltas hd
    obtain ⟨e', he', -, rfl⟩ := mem_filledDeltas hd'
    exact hapart e he e' he' (congrArg PriceKey.orderHash heq))
  have ht₂ := ht₁.cancelledPass hp₂ (by
    intro _ e he hunfilled
    exact List.mem_map.mpr ⟨e, List.mem_filter.mpr ⟨List.mem_append_right _ he, hunfilled⟩, rfl⟩)
  obtain ⟨pending₃, h₃, hp₃⟩ := h₂.pass hc₂ [] rfl
  have ht₃ := ht₂.frame hp₃ (by
    intro d hd d' hd' heq
    obtain ⟨e, he, -, rfl⟩ := mem_cancelledDeltas hd
    obtain ⟨e', he', -, rfl⟩ := mem_cancelledDeltas hd'
    exact hapart e' he' e he (congrArg PriceKey.orderHash heq).symm)
  obtain ⟨pending₄, h₄, hp₄⟩ := h₃.pass ht₃ m.partialCancelOrders rfl
  refine ⟨pending₄, h₄, ?_, ?_, ?_⟩
  · intro k
    split
    · next hk =>
      cases hpk : pending.lookup k with
      | none =>
        exact hp₄.pending_none ht₃ (hp₃.pending_none hc₂ (hp₂.pending_none ht₁.filled
          (hp₁.pending_none hm.resting.filled hpk)))
      | some o =>
        obtain ⟨e, he, rfl⟩ := hm.all k o hpk hk
        by_cases hc : e.isCancelled = true
        · have hmem : cancelledDelta e ∈ cancelledDeltas m.transient :=
            List.mem_map.mpr ⟨e, List.mem_filter.mpr ⟨he, hc⟩, rfl⟩
          exact (hp₄.settled _ hmem).2.trans (pendingSlot_cancelled e _)
        · have hmem : filledDelta e ∈ filledDeltas m.transient :=
            List.mem_map.mpr ⟨e, List.mem_filter.mpr ⟨he, by simp [keepsFill, hc]⟩, rfl⟩
          have hin : e.order.orderHash ∉ m.partialCancelOrders :=
            hm.transient.notMem_partialCancelOrders hapart he hc
          have hleft := (hp₂.settled _ hmem).2
          rw [decide_eq_false (show (filledDelta e).order.orderHash ∉ _ from hin)] at hleft
          exact hp₄.pending_none ht₃ (hp₃.pending_none hc₂ hleft)
    · next hk =>
      rw [(hp₄.foreign hk).2, (hp₃.foreign hk).2, (hp₂.foreign hk).2, (hp₁.foreign hk).2]
  · intro k hk
    refine (hp₄.foreign hk).1.trans ?_
    rw [(hp₃.foreign hk).1, (hp₂.foreign hk).1, (hp₁.foreign hk).1]
  · exact hp₄.transientOrders.trans
      (hp₃.transientOrders.trans (hp₂.transientOrders.trans hp₁.transientOrders))

end Batch

end Stores

end ExchangeOrderStore
