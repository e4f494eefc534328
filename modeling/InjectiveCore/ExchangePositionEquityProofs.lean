import InjectiveCore.ExchangePositionProofs

/-!
# Position equity — what a delta leaves of it

The equity of a position at a price is its margin and the profit of closing it there.
`ApplyPositionDelta` moves equity between the position, the payout and the returned margin
of the execution. Over exact decimals nothing is lost (`applyPositionDelta_conserves`), the
position it leaves is the remaining or the newly opened side (`netted`), and the signed
quantities add up.

The divisions of the source are by the new quantity in the same direction and by the
execution quantity in the opposing one; by zero they panic (`quoPanics`).
-/

namespace ExchangePosition

open DecArith

section Definitions

variable {D : Type} [DecArith D]

/-- The margin of a position with its profit or loss at a price. -/
def Position.equity (p : Position D) (price : D) : D :=
  p.margin + p.getPayoutFromPnl price p.quantity

/-- The delta is netted in the opposing direction. -/
def Position.opposes (p : Position D) (delta : PositionDelta D) : Prop :=
  p.quantity ≠ 0 ∧ p.isLong ≠ delta.isLong

instance (p : Position D) (delta : PositionDelta D) : Decidable (p.opposes delta) :=
  inferInstanceAs (Decidable (_ ∧ _))

/-- A `Quo` of `ApplyPositionDelta` divides by zero. -/
def Position.quoPanics (p : Position D) (delta : PositionDelta D) : Prop :=
  if p.opposes delta then delta.executionQuantity = 0
  else p.quantity + delta.executionQuantity = 0

instance (p : Position D) (delta : PositionDelta D) : Decidable (p.quoPanics delta) :=
  inferInstanceAs (Decidable (if p.opposes delta then _ else _))

end Definitions

/-- The side a delta leaves: the position increased at the weighted average price, the part
    of it that is not closed with its share of the margin, or the other side, opened at the
    execution price with its share of the execution margin. -/
def Position.netted (p : Position ℚ) (delta : PositionDelta ℚ) : Position ℚ :=
  if ¬p.opposes delta then
    { p with
      isLong := delta.isLong
      quantity := p.quantity + delta.executionQuantity
      entryPrice :=
        (p.quantity * p.entryPrice + delta.executionQuantity * delta.executionPrice) /
          (p.quantity + delta.executionQuantity)
      margin := p.margin + delta.executionMargin }
  else if delta.executionQuantity ≤ p.quantity then
    { p with
      quantity := p.quantity - delta.executionQuantity
      margin := p.margin * (p.quantity - delta.executionQuantity) / p.quantity }
  else
    { p with
      isLong := delta.isLong
      quantity := delta.executionQuantity - p.quantity
      entryPrice := delta.executionPrice
      margin := delta.executionMargin * (delta.executionQuantity - p.quantity) /
        delta.executionQuantity }

variable {p : Position ℚ} {delta : PositionDelta ℚ}

theorem oriented_of_not_opposes (h : ¬p.opposes delta) :
    p.oriented delta = { p with isLong := delta.isLong } := by
  rw [Position.oriented]
  split
  · rfl
  · rename_i hq
    have hdir : p.isLong = delta.isLong := not_not.mp (fun hne => h ⟨hq, hne⟩)
    rw [← hdir]

theorem oriented_of_opposes (h : p.opposes delta) : p.oriented delta = p := if_neg h.1

theorem applyPositionDelta_of_not_opposes (h : ¬p.opposes delta) (fee : ℚ) :
    p.applyPositionDelta delta fee =
      { position := p.netted delta, payout := 0, closeExecutionMargin := 0
        collateralizationMargin := delta.executionMargin, pnl := 0 } := by
  rw [Position.applyPositionDelta, oriented_of_not_opposes h, if_pos rfl, Position.netted,
    if_pos h]
  rfl

theorem splitPositionMargin_snd {m q c : ℚ} (hq : q ≠ 0) (hc : c ≠ 0) :
    (splitPositionMargin m q c).2 = m * (q - c) / q := by
  rw [splitPositionMargin, if_neg (by simp [hq, hc])]
  split
  · rename_i hcq
    rw [hcq, sub_self, mul_zero, zero_div]
  · rfl

theorem applyPositionDelta_of_close (h : p.opposes delta) (he : delta.executionQuantity ≠ 0)
    (hle : delta.executionQuantity ≤ p.quantity) (fee : ℚ) :
    (p.applyPositionDelta delta fee).position = p.netted delta ∧
      (p.applyPositionDelta delta fee).payout =
        p.getPayoutFromPnl delta.executionPrice delta.executionQuantity -
          (if delta.executionMargin = 0 then fee else 0) +
          (p.margin - (p.netted delta).margin) ∧
      (p.applyPositionDelta delta fee).closeExecutionMargin = delta.executionMargin := by
  have hmargin := splitPositionMargin_snd (m := p.margin) h.1 he
  have hsplit := splitPositionMargin_add p.margin p.quantity delta.executionQuantity
  have hnet : p.netted delta = { p with
      quantity := p.quantity - delta.executionQuantity
      margin := p.margin * (p.quantity - delta.executionQuantity) / p.quantity } := by
    rw [Position.netted, if_neg (not_not.mpr h), if_pos hle]
  rw [Position.applyPositionDelta, oriented_of_opposes h, if_neg h.2, hnet]
  simp only [min_eq_right hle, lt_irrefl, if_false, hmargin]
  refine ⟨trivial, ?_, mul_div_cancel_right₀ _ he⟩
  rw [hmargin] at hsplit
  linarith

theorem applyPositionDelta_of_flip (h : p.opposes delta) (he : delta.executionQuantity ≠ 0)
    (hlt : p.quantity < delta.executionQuantity) (fee : ℚ) :
    (p.applyPositionDelta delta fee).position = p.netted delta ∧
      (p.applyPositionDelta delta fee).payout =
        p.getPayoutFromPnl delta.executionPrice p.quantity -
          (if delta.executionMargin = 0 then fee else 0) + p.margin ∧
      (p.applyPositionDelta delta fee).closeExecutionMargin =
        delta.executionMargin - (p.netted delta).margin := by
  have hclosed : splitPositionMargin p.margin p.quantity p.quantity = (p.margin, 0) := by
    rw [splitPositionMargin, if_neg (by simp [h.1]), if_pos rfl]
  have hnet : p.netted delta = { p with
      isLong := delta.isLong
      quantity := delta.executionQuantity - p.quantity
      entryPrice := delta.executionPrice
      margin := delta.executionMargin * (delta.executionQuantity - p.quantity) /
        delta.executionQuantity } := by
    rw [Position.netted, if_neg (not_not.mpr h), if_neg (not_le.mpr hlt)]
  have hdir : delta.isLong = !p.isLong := by
    cases hp : p.isLong <;> cases hl : delta.isLong <;> simp_all [Position.opposes]
  have hopen : delta.executionQuantity - p.quantity ≠ 0 := sub_ne_zero.mpr hlt.ne'
  rw [Position.applyPositionDelta, oriented_of_opposes h, if_neg h.2, hnet]
  simp only [min_eq_left hlt.le, hlt, if_true, hclosed]
  refine ⟨?_, trivial, ?_⟩
  · -- the recursive call finds an empty position
    simp only [Position.oriented, sub_self, if_true, Position.netSameDirection,
      Position.getAverageWeightedEntryPrice, mul_rat, quo_rat, zero_mul, zero_add, hdir,
      Position.mk.injEq, true_and, and_true]
    refine ⟨mul_div_cancel_left₀ _ hopen, ?_⟩
    field_simp
  · simp only [quo_rat, mul_rat]
    field_simp
    ring

/-- An increased position is worth the old one and the margin that was added: the average
    price keeps the profit at the execution price. -/
theorem equity_netted_of_not_opposes (h : ¬p.opposes delta)
    (hq : p.quantity + delta.executionQuantity ≠ 0) :
    (p.netted delta).equity delta.executionPrice =
      p.equity delta.executionPrice + delta.executionMargin := by
  have hpnl : (p.netted delta).getPayoutFromPnl delta.executionPrice
      (p.quantity + delta.executionQuantity) =
      p.getPayoutFromPnl delta.executionPrice p.quantity := by
    have havg : (p.quantity + delta.executionQuantity) * (delta.executionPrice -
        (p.quantity * p.entryPrice + delta.executionQuantity * delta.executionPrice) /
          (p.quantity + delta.executionQuantity)) =
        p.quantity * (delta.executionPrice - p.entryPrice) := by
      field_simp
      ring
    rw [Position.netted, if_pos h]
    simp only [Position.getPayoutFromPnl, mul_rat, havg]
    by_cases hq0 : p.quantity = 0
    · simp [hq0]
    · have hdir : p.isLong = delta.isLong := not_not.mp (fun hne => h ⟨hq0, hne⟩)
      rw [hdir]
  have hquantity : (p.netted delta).quantity = p.quantity + delta.executionQuantity := by
    rw [Position.netted, if_pos h]
  have hmargin : (p.netted delta).margin = p.margin + delta.executionMargin := by
    rw [Position.netted, if_pos h]
  rw [Position.equity, Position.equity, hquantity, hpnl, hmargin]
  ring

theorem equity_netted_of_close (h : p.opposes delta)
    (hle : delta.executionQuantity ≤ p.quantity) :
    (p.netted delta).equity delta.executionPrice = (p.netted delta).margin +
      (p.getPayoutFromPnl delta.executionPrice p.quantity -
        p.getPayoutFromPnl delta.executionPrice delta.executionQuantity) := by
  rw [Position.netted, if_neg (not_not.mpr h), if_pos hle]
  simp only [Position.equity, Position.getPayoutFromPnl, mul_rat]
  split <;> ring

theorem equity_netted_of_flip (h : p.opposes delta)
    (hlt : p.quantity < delta.executionQuantity) :
    (p.netted delta).equity delta.executionPrice = (p.netted delta).margin := by
  rw [Position.netted, if_neg (not_not.mpr h), if_neg (not_le.mpr hlt)]
  simp [Position.equity, Position.getPayoutFromPnl]

theorem signed_netted (p : Position ℚ) (delta : PositionDelta ℚ) :
    (p.netted delta).getSignedPositionQuantity = p.getSignedPositionQuantity + delta.signed := by
  rw [Position.netted]
  by_cases h : p.opposes delta
  · have hdir : delta.isLong = !p.isLong := by
      cases hp : p.isLong <;> cases hl : delta.isLong <;> simp_all [Position.opposes]
    rw [if_neg (not_not.mpr h)]
    split
    · simp only [Position.getSignedPositionQuantity, PositionDelta.signed, hdir]
      cases p.isLong <;> simp <;> ring
    · simp only [Position.getSignedPositionQuantity, PositionDelta.signed, hdir]
      cases p.isLong <;> simp [sub_eq_add_neg, add_comm]
  · rw [if_pos h]
    by_cases hq0 : p.quantity = 0
    · simp [Position.getSignedPositionQuantity, PositionDelta.signed, hq0]
    · have hdir : p.isLong = delta.isLong := not_not.mp (fun hne => h ⟨hq0, hne⟩)
      simp only [Position.getSignedPositionQuantity, PositionDelta.signed, hdir]
      cases delta.isLong <;> simp [add_comm]

theorem not_quoPanics (hp : 0 ≤ p.quantity) (hq : 0 < delta.executionQuantity) :
    ¬p.quoPanics delta := by
  rw [Position.quoPanics]
  split
  · exact hq.ne'
  · exact (add_pos_of_nonneg_of_pos hp hq).ne'

theorem applyPositionDelta_equity (fee : ℚ) (h : ¬p.quoPanics delta) :
    p.equity delta.executionPrice + delta.executionMargin =
        (p.applyPositionDelta delta fee).position.equity delta.executionPrice +
          (p.applyPositionDelta delta fee).payout +
          (p.applyPositionDelta delta fee).closeExecutionMargin +
          (if delta.executionMargin = 0 ∧ p.opposes delta then fee else 0) ∧
      (p.applyPositionDelta delta fee).position = p.netted delta := by
  rw [Position.quoPanics] at h
  by_cases hop : p.opposes delta
  · rw [if_pos hop] at h
    have hfee : (if delta.executionMargin = 0 ∧ p.opposes delta then fee else 0) =
        if delta.executionMargin = 0 then fee else 0 :=
      if_congr (and_iff_left hop) rfl rfl
    rcases le_or_gt delta.executionQuantity p.quantity with hle | hlt
    · obtain ⟨hposition, hpayout, hclose⟩ := applyPositionDelta_of_close hop h hle fee
      rw [hposition, hpayout, hclose, equity_netted_of_close hop hle]
      refine ⟨?_, rfl⟩
      rw [Position.equity, hfee]
      ring
    · obtain ⟨hposition, hpayout, hclose⟩ := applyPositionDelta_of_flip hop h hlt fee
      rw [hposition, hpayout, hclose, equity_netted_of_flip hop hlt]
      refine ⟨?_, rfl⟩
      rw [Position.equity, hfee]
      ring
  · rw [if_neg hop] at h
    rw [applyPositionDelta_of_not_opposes hop]
    refine ⟨?_, rfl⟩
    rw [equity_netted_of_not_opposes hop h, if_neg (fun hfee => hop hfee.2)]
    ring

/-- The execution margin is returned for the closed part and collateralises the rest. -/
theorem closeExecution_add_collateralization (p : Position ℚ) (d : PositionDelta ℚ)
    (fee : ℚ) (h : 0 < d.executionQuantity) :
    (p.applyPositionDelta d fee).closeExecutionMargin +
      (p.applyPositionDelta d fee).collateralizationMargin = d.executionMargin := by
  simp only [Position.applyPositionDelta]
  generalize p.oriented d = o
  by_cases hdir : o.isLong = d.isLong
  · rw [if_pos hdir]
    exact zero_add _
  · rw [if_neg hdir]
    by_cases hflip : min o.quantity d.executionQuantity < d.executionQuantity
    · simp only [if_pos hflip]
      exact add_sub_cancel _ _
    · have hmin : min o.quantity d.executionQuantity = d.executionQuantity :=
        le_antisymm (min_le_right _ _) (not_lt.mp hflip)
      simp only [hmin, lt_irrefl, if_false, mul_rat, quo_rat, add_zero]
      exact mul_div_cancel_right₀ _ h.ne'

/-- **EQUITY IS CONSERVED**: equity before and execution margin are equity after, payout,
    returned execution margin and the fee of a reduce-only close; the signed quantity changes
    by the signed execution quantity, and the position left is the remaining or the newly
    opened side. -/
theorem applyPositionDelta_conserves (p : Position ℚ) (delta : PositionDelta ℚ) (fee : ℚ)
    (h : ¬p.quoPanics delta) :
    p.equity delta.executionPrice + delta.executionMargin =
        (p.applyPositionDelta delta fee).position.equity delta.executionPrice +
          (p.applyPositionDelta delta fee).payout +
          (p.applyPositionDelta delta fee).closeExecutionMargin +
          (if delta.executionMargin = 0 ∧ p.opposes delta then fee else 0) ∧
      (p.applyPositionDelta delta fee).position.getSignedPositionQuantity =
        p.getSignedPositionQuantity + delta.signed ∧
      (p.applyPositionDelta delta fee).position = p.netted delta := by
  obtain ⟨hequity, hposition⟩ := applyPositionDelta_equity fee h
  refine ⟨hequity, ?_, hposition⟩
  rw [hposition]
  exact signed_netted p delta

/-- A long position of 2 at 10 with margin 5, flipped by a short of 3 at 12 with margin 6. -/
def longTwo : Position ℚ :=
  { isLong := true, quantity := 2, entryPrice := 10, margin := 5, cumulativeFundingEntry := none }

def shortThree : PositionDelta ℚ :=
  { isLong := false, executionQuantity := 3, executionMargin := 6, executionPrice := 12 }

theorem applyPositionDelta_conserves_flip :
    ¬longTwo.quoPanics shortThree ∧
      longTwo.equity 12 + 6 =
        (longTwo.applyPositionDelta shortThree 1).position.equity 12 +
          (longTwo.applyPositionDelta shortThree 1).payout +
          (longTwo.applyPositionDelta shortThree 1).closeExecutionMargin +
          (if shortThree.executionMargin = 0 ∧ longTwo.opposes shortThree then 1 else 0) ∧
      (longTwo.applyPositionDelta shortThree 1).position.getSignedPositionQuantity =
        longTwo.getSignedPositionQuantity + shortThree.signed ∧
      (longTwo.applyPositionDelta shortThree 1).position = longTwo.netted shortThree :=
  ⟨by decide, applyPositionDelta_conserves longTwo shortThree 1 (by decide)⟩

end ExchangePosition
