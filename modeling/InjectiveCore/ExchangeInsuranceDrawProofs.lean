import InjectiveCore.ExchangeLiquidationFundsProofs

/-!
# Drawing a deficit from several insurance funds

The deficit of a cross-margin pool is drawn from the insurance funds of its markets in two
passes. The first asks every fund for its share, in whole coins; the second asks one fund
after the other for what is left. A fund pays whole coins, so that the last payment may
exceed the deficit by a fraction of a coin.

`Paid` says what one payment does, `Drawn` what any sequence of payments does to the
markets: coins of a fund become balance of its market. `drawFromFunds_drawn` follows the
remaining deficit through a pass, `drawFromFunds_exhausts` says when the second pass leaves
some of it, and `draw_complete_and_bounded` puts the two passes together.
-/

namespace ExchangeInsuranceDraw

open DecArith ExchangeFees ExchangeMarketFunds ExchangeLiquidation

section Passes

variable {D : Type} [DecArith D]

/-! ## The two passes -/

/-- The insurance funds with coins (`insuranceFundEntry`). -/
def insuranceFundEntries (s : LiquidationState D) (marketIDs : List Hash) :
    List (Hash × D) :=
  (marketIDs.filter (fun m => decide (0 < (s.markets m).getInsuranceFundBalance))).map
    (fun m => (m, newDec (s.markets m).getInsuranceFundBalance))

/-- A pass of `drawDeficitFromInsuranceFundsProportionally` over the funds. `shareOf` says
    what a fund with a balance is asked for when a deficit remains. -/
def drawFromFunds (c : LiquidationContext D) (shareOf : D → D → D) :
    List (Hash × D) → LiquidationState D → D →
      Except InsuranceError (LiquidationState D × D)
  | [], s, remainingDeficit => .ok (s, remainingDeficit)
  | (marketID, balance) :: rest, s, remainingDeficit =>
    if ¬0 < remainingDeficit then .ok (s, remainingDeficit)
    else
      let share := shareOf balance remainingDeficit
      match payDeficitFromInsuranceFund s c.insuranceSend c.quoteDenom marketID share with
      | .error e => .error e
      | .ok (s', shareRemainder) =>
        drawFromFunds c shareOf rest s' (remainingDeficit - (share - shareRemainder))

/-- The share of a fund in the proportional pass. -/
def proportionalShare (absoluteDeficit totalFundBalance balance remainingDeficit : D) : D :=
  min (min (newDec (truncateInt (quo (mul absoluteDeficit balance) totalFundBalance))) balance)
    remainingDeficit

/-- `drawDeficitFromInsuranceFundsProportionally`. -/
def drawDeficitFromInsuranceFundsProportionally (c : LiquidationContext D)
    (s : LiquidationState D) (poolMarketIDs : List Hash) (absoluteDeficit : D) :
    Except InsuranceError (LiquidationState D × D) :=
  let funds := insuranceFundEntries s poolMarketIDs
  let totalFundBalance := (funds.map Prod.snd).sum
  match if 0 < totalFundBalance then
      drawFromFunds c (proportionalShare absoluteDeficit totalFundBalance) funds s
        absoluteDeficit
    else .ok (s, absoluteDeficit) with
  | .error e => .error e
  | .ok (s', remainingDeficit) =>
    -- the rounding remainder is drawn from one fund after the other
    drawFromFunds c (fun _ remaining => remaining) funds s' remainingDeficit

/-- The coins in the insurance fund of a market. -/
def fundBalance (s : LiquidationState D) (marketID : Hash) : ℤ :=
  (s.markets marketID).getInsuranceFundBalance

theorem newDec_ceilInt_lt (x : D) : newDec (ceilInt x) < x + one := by
  by_contra h
  have hle : x ≤ newDec (ceilInt x - 1) := by
    rw [newDec_sub]
    exact le_sub_iff_add_le.mpr (not_lt.mp h)
  have := ceilInt_le x _ hle
  omega

theorem newDec_lt {m n : ℤ} (h : m < n) : (newDec m : D) < newDec n := by
  refine lt_of_le_of_ne (newDec_le m n h.le) ?_
  intro heq
  have := congrArg ceilInt heq
  rw [ceilInt_newDec, ceilInt_newDec] at this
  omega

theorem one_pos : (0 : D) < one := by
  have h := newDec_lt (D := D) (show (0 : ℤ) < 1 by decide)
  rwa [newDec_zero] at h

/-! ## One payment -/

/-- What a payment does: the coins withdrawn become balance of the market, and they fall
    short of the amount only if they are all the fund has. -/
structure Paid (s s' : LiquidationState D) (marketID : Hash) (amount remaining : D)
    (coins : ℤ) : Prop where
  nonneg : 0 ≤ coins
  le : coins ≤ fundBalance s marketID
  lt : newDec coins < amount + one
  exhausts : newDec coins < amount → coins = fundBalance s marketID
  remaining_eq : remaining = amount - newDec coins
  fund_self : fundBalance s' marketID = fundBalance s marketID - coins
  balance_self : (s'.markets marketID).marketBalance =
    (s.markets marketID).marketBalance + newDec coins
  others : ∀ m, m ≠ marketID → s'.markets m = s.markets m

variable {c : LiquidationContext D} {s s' s'' : LiquidationState D} {amount : D} {bankSend : Bool}

theorem withdrawn_of_err_eq_none {m : MarketFunds D}
    (h : (m.payDeficitFromInsuranceFund bankSend amount).err = none) (hamount : amount ≠ 0) :
    m.withdrawn bankSend amount = min m.getInsuranceFundBalance (ceilInt amount) := by
  rw [MarketFunds.payDeficitFromInsuranceFund, if_neg hamount] at h
  cases hf : m.insuranceFund with
  | none => simp [hf] at h
  | some balance =>
    cases bankSend with
    | true =>
      rw [MarketFunds.withdrawn, if_neg hamount, if_pos rfl, MarketFunds.getInsuranceFundBalance,
        hf, Option.getD_some]
    | false =>
      simp only [hf, MarketFunds.withdrawFromInsuranceFund, Bool.false_eq_true, if_false] at h
      split_ifs at h

variable {marketID : Hash} {remaining : D}

theorem payDeficitFromInsuranceFund_paid {denom : String}
    (h : payDeficitFromInsuranceFund s bankSend denom marketID amount = .ok (s', remaining))
    (hamount : 0 ≤ amount) (hfund : 0 ≤ fundBalance s marketID) :
    ∃ coins, Paid s s' marketID amount remaining coins := by
  simp only [payDeficitFromInsuranceFund] at h
  split at h
  · cases h
  rename_i hnone
  rw [Except.ok.injEq, Prod.mk.injEq] at h
  obtain ⟨rfl, rfl⟩ := h
  obtain ⟨hremaining, hbalance, hinsurance⟩ :=
    MarketFunds.payDeficit_spec (s.markets marketID) bankSend amount
  set coins := (s.markets marketID).withdrawn bankSend amount with hwithdrawn
  have hcoins : 0 ≤ coins ∧ coins ≤ fundBalance s marketID ∧ newDec coins < amount + one ∧
      (newDec coins < amount → coins = fundBalance s marketID) := by
    by_cases hzero : amount = 0
    · rw [hwithdrawn, MarketFunds.withdrawn, if_pos hzero, hzero, newDec_zero, zero_add]
      exact ⟨le_refl 0, hfund, one_pos, fun h => absurd h (lt_irrefl 0)⟩
    · rw [hwithdrawn, withdrawn_of_err_eq_none hnone hzero]
      have hceil : 0 ≤ ceilInt amount := by
        by_contra hneg
        have hlt := newDec_lt (D := D) (not_le.mp hneg)
        rw [newDec_zero] at hlt
        exact absurd (hamount.trans (le_newDec_ceilInt amount)) (not_le.mpr hlt)
      refine ⟨le_min hfund hceil, min_le_left _ _, ?_, ?_⟩
      · exact lt_of_le_of_lt (newDec_le _ _ (min_le_right _ _)) (newDec_ceilInt_lt amount)
      · intro hlt
        refine min_eq_left (le_of_not_ge (fun hge => ?_))
        rw [min_eq_right hge] at hlt
        exact absurd (le_newDec_ceilInt amount) (not_le.mpr hlt)
  refine ⟨coins, hcoins.1, hcoins.2.1, hcoins.2.2.1, hcoins.2.2.2, hremaining, ?_, ?_, ?_⟩
  · show (Function.update s.markets marketID _ marketID).getInsuranceFundBalance = _
    rw [Function.update_self]
    exact hinsurance
  · show (Function.update s.markets marketID _ marketID).marketBalance = _
    rw [Function.update_self]
    exact hbalance
  · intro m hm
    exact Function.update_of_ne hm _ _

/-! ## Passes over the funds -/

/-- What payments do to the markets: coins of the funds become balances. -/
structure Drawn (s s' : LiquidationState D) : Prop where
  nonneg : ∀ m, 0 ≤ fundBalance s m → 0 ≤ fundBalance s' m
  le : ∀ m, fundBalance s' m ≤ fundBalance s m
  credited : ∀ m, (s'.markets m).marketBalance =
    (s.markets m).marketBalance + newDec (fundBalance s m - fundBalance s' m)

theorem Drawn.refl (s : LiquidationState D) : Drawn s s where
  nonneg := fun _ h => h
  le := fun _ => le_refl _
  credited := fun m => by rw [sub_self, newDec_zero, add_zero]

theorem Drawn.trans (h : Drawn s s') (h' : Drawn s' s'') : Drawn s s'' where
  nonneg := fun m hm => h'.nonneg m (h.nonneg m hm)
  le := fun m => (h'.le m).trans (h.le m)
  credited := by
    intro m
    rw [h'.credited m, h.credited m, add_assoc, ← newDec_add, add_comm (_ - _), sub_add_sub_cancel']

variable {coins : ℤ}

theorem Paid.drawn (h : Paid s s' marketID amount remaining coins) : Drawn s s' := by
  refine ⟨?_, ?_, ?_⟩
  all_goals intro m
  all_goals by_cases hm : m = marketID
  · subst hm
    intro _
    rw [h.fund_self]
    exact sub_nonneg.mpr h.le
  · intro hpos
    rwa [fundBalance, h.others m hm]
  · subst hm
    rw [h.fund_self]
    have := h.nonneg
    omega
  · rw [fundBalance, h.others m hm]
    exact le_refl _
  · subst hm
    rw [h.balance_self, h.fund_self, sub_sub_cancel]
  · rw [fundBalance, fundBalance, h.others m hm, sub_self, newDec_zero, add_zero]

theorem Paid.neg_one_lt {remainder : D} (h : Paid s s' marketID amount remainder coins)
    (hle : amount ≤ remaining) : -one < remaining - newDec coins := by
  have hlt : newDec coins < remaining + one := h.lt.trans_le (add_le_add_left hle one)
  rw [neg_lt_iff_pos_add', ← add_sub_assoc, sub_pos, add_comm]
  exact hlt

/-- The coins drawn from a set of markets. -/
def drawnFrom (s s' : LiquidationState D) (marketIDs : Finset Hash) : ℤ :=
  ∑ m ∈ marketIDs, (fundBalance s m - fundBalance s' m)

omit [DecArith D] in
theorem drawnFrom_trans (s s' s'' : LiquidationState D) (marketIDs : Finset Hash) :
    drawnFrom s s'' marketIDs = drawnFrom s s' marketIDs + drawnFrom s' s'' marketIDs := by
  rw [drawnFrom, drawnFrom, drawnFrom, ← Finset.sum_add_distrib]
  refine Finset.sum_congr rfl ?_
  intro m _
  ring

variable {marketIDs : Finset Hash}

theorem sub_drawnFrom_self (s : LiquidationState D) (x : D) :
    x = x - newDec (drawnFrom s s marketIDs) := by
  rw [drawnFrom, Finset.sum_eq_zero (fun m _ => sub_self _), newDec_zero, sub_zero]

theorem Paid.drawnFrom_eq (h : Paid s s' marketID amount remaining coins)
    (hmem : marketID ∈ marketIDs) : drawnFrom s s' marketIDs = coins := by
  rw [drawnFrom, Finset.sum_eq_single_of_mem marketID hmem]
  · rw [h.fund_self, sub_sub_cancel]
  · intro m _ hm
    rw [fundBalance, fundBalance, h.others m hm, sub_self]

variable {funds : List (Hash × D)} {remaining' : D} {shareOf : D → D → D}

/-- A pass that asks no fund for more than what remains: the deficit falls by the coins
    drawn, and stays above minus one. -/
theorem drawFromFunds_drawn
    (hshare : ∀ f ∈ funds, ∀ r, 0 < r → 0 ≤ shareOf f.2 r ∧ shareOf f.2 r ≤ r)
    (hmem : ∀ f ∈ funds, f.1 ∈ marketIDs) (hfund : ∀ f ∈ funds, 0 ≤ fundBalance s f.1)
    (hremaining : -one < remaining)
    (h : drawFromFunds c shareOf funds s remaining = .ok (s', remaining')) :
    Drawn s s' ∧ remaining' = remaining - newDec (drawnFrom s s' marketIDs) ∧
      -one < remaining' := by
  induction funds generalizing s remaining with
  | nil =>
    obtain ⟨rfl, rfl⟩ := Prod.mk.inj (Except.ok.inj h)
    exact ⟨Drawn.refl _, sub_drawnFrom_self _ _, hremaining⟩
  | cons f rest ih =>
    simp only [drawFromFunds] at h
    split at h
    · obtain ⟨rfl, rfl⟩ := Prod.mk.inj (Except.ok.inj h)
      exact ⟨Drawn.refl _, sub_drawnFrom_self _ _, hremaining⟩
    · rename_i hpos
      split at h
      · cases h
      rename_i s₁ remainder hpay
      obtain ⟨hshare0, hshareLe⟩ := hshare f List.mem_cons_self remaining (not_not.mp hpos)
      obtain ⟨coins, hpaid⟩ :=
        payDeficitFromInsuranceFund_paid hpay hshare0 (hfund f List.mem_cons_self)
      -- what is asked for and not returned are the coins
      rw [hpaid.remaining_eq, sub_sub_cancel] at h
      have hnext := hpaid.neg_one_lt hshareLe
      obtain ⟨hdrawn, hsum, hbound⟩ := ih (fun f' hf' => hshare f' (List.mem_cons_of_mem f hf'))
        (fun f' hf' => hmem f' (List.mem_cons_of_mem f hf'))
        (fun f' hf' => hpaid.drawn.nonneg _ (hfund f' (List.mem_cons_of_mem f hf')))
        hnext h
      refine ⟨hpaid.drawn.trans hdrawn, ?_, hbound⟩
      rw [hsum, drawnFrom_trans s s₁ s', hpaid.drawnFrom_eq (hmem f List.mem_cons_self), newDec_add]
      abel

theorem drawFromFunds_exhausts (hfund : ∀ f ∈ funds, 0 ≤ fundBalance s f.1)
    (hremaining : -one < remaining)
    (h : drawFromFunds c (fun _ r => r) funds s remaining = .ok (s', remaining'))
    (hpos' : 0 < remaining') : ∀ f ∈ funds, fundBalance s' f.1 = 0 := by
  induction funds generalizing s remaining with
  | nil => exact fun f hf => absurd hf List.not_mem_nil
  | cons f rest ih =>
    simp only [drawFromFunds] at h
    split at h
    · rename_i hpos
      rw [(Prod.mk.inj (Except.ok.inj h)).2] at hpos
      exact absurd hpos' hpos
    · rename_i hpos
      split at h
      · cases h
      rename_i s₁ remainder hpay
      obtain ⟨coins, hpaid⟩ := payDeficitFromInsuranceFund_paid hpay
        (not_not.mp hpos).le (hfund f List.mem_cons_self)
      rw [hpaid.remaining_eq, sub_sub_cancel] at h
      have hnext := hpaid.neg_one_lt (le_refl remaining)
      have hrest : ∀ f' ∈ rest, 0 ≤ fundBalance s₁ f'.1 :=
        fun f' hf' => hpaid.drawn.nonneg _ (hfund f' (List.mem_cons_of_mem f hf'))
      have hmem : ∀ f' ∈ rest, f'.1 ∈ (rest.map Prod.fst).toFinset :=
        fun f' hf' => List.mem_toFinset.mpr (List.mem_map_of_mem hf')
      obtain ⟨hdrawn, hsum, -⟩ := drawFromFunds_drawn
        (fun _ _ r hr => ⟨hr.le, le_refl r⟩) hmem hrest hnext h
      refine List.forall_mem_cons.mpr ⟨?_, ih hrest hnext h⟩
      -- the deficit left behind this fund is not smaller than the one at the end
      have hdrawn0 : (0 : D) ≤ newDec (drawnFrom s₁ s' (rest.map Prod.fst).toFinset) := by
        refine newDec_nonneg (Finset.sum_nonneg ?_)
        intro m _
        exact sub_nonneg.mpr (hdrawn.le m)
      have hleft : newDec coins < remaining := by
        rw [hsum] at hpos'
        exact sub_pos.mp (hpos'.trans_le (sub_le_self _ hdrawn0))
      have hempty : fundBalance s₁ f.1 = 0 := by
        rw [hpaid.fund_self, hpaid.exhausts hleft, sub_self]
      have h1 := hdrawn.le f.1
      have h2 := hdrawn.nonneg f.1 hempty.ge
      omega

theorem drawFromFunds_others
    (h : drawFromFunds c shareOf funds s remaining = .ok (s', remaining')) {m : Hash}
    (hm : ∀ f ∈ funds, f.1 ≠ m) : s'.markets m = s.markets m := by
  induction funds generalizing s remaining with
  | nil => rw [(Prod.mk.inj (Except.ok.inj h)).1]
  | cons f rest ih =>
    simp only [drawFromFunds] at h
    split at h
    · rw [(Prod.mk.inj (Except.ok.inj h)).1]
    · split at h
      · cases h
      rename_i s₁ remainder hpay
      rw [ih h (fun f' hf' => hm f' (List.mem_cons_of_mem f hf'))]
      simp only [payDeficitFromInsuranceFund] at hpay
      split at hpay
      · cases hpay
      rw [← (Prod.mk.inj (Except.ok.inj hpay)).1]
      exact Function.update_of_ne (hm f List.mem_cons_self).symm _ _

/-! ## No pass fails -/

/-- A fund that exists pays when the bank sends the coins, and goes on to exist. -/
theorem payDeficitFromInsuranceFund_exists (hfund : (s.markets marketID).insuranceFund.isSome)
    (denom : String) (amount : D) :
    ∃ s' remaining, payDeficitFromInsuranceFund s true denom marketID amount =
        .ok (s', remaining) ∧
      ∀ m, (s.markets m).insuranceFund.isSome → (s'.markets m).insuranceFund.isSome := by
  obtain ⟨balance, hbalance⟩ := Option.isSome_iff_exists.mp hfund
  have hpayment : ((s.markets marketID).payDeficitFromInsuranceFund true amount).err = none ∧
      ((s.markets marketID).payDeficitFromInsuranceFund true amount).funds.insuranceFund.isSome
        := by
    rw [MarketFunds.payDeficitFromInsuranceFund]
    by_cases hzero : amount = 0
    · rw [if_pos hzero]
      exact ⟨rfl, hfund⟩
    · have hle : ¬balance < if balance < ceilInt amount then balance else ceilInt amount := by
        split
        · exact lt_irrefl balance
        · assumption
      simp only [if_neg hzero, hbalance, MarketFunds.withdrawFromInsuranceFund, if_neg hle,
        if_true, MarketFunds.incrementMarketBalance, Option.isSome_some, and_self]
  refine ⟨_, _, by simp only [payDeficitFromInsuranceFund, hpayment.1]; rfl, ?_⟩
  intro m hm
  show (Function.update s.markets marketID _ m).insuranceFund.isSome = true
  by_cases heq : m = marketID
  · subst heq
    rw [Function.update_self]
    exact hpayment.2
  · rwa [Function.update_of_ne heq]

theorem drawFromFunds_exists (hsend : c.insuranceSend = true) (shareOf : D → D → D)
    (hfund : ∀ f ∈ funds, (s.markets f.1).insuranceFund.isSome) (remaining : D) :
    ∃ s' remaining', drawFromFunds c shareOf funds s remaining = .ok (s', remaining') ∧
      ∀ m, (s.markets m).insuranceFund.isSome → (s'.markets m).insuranceFund.isSome := by
  induction funds generalizing s remaining with
  | nil => exact ⟨s, remaining, rfl, fun _ hm => hm⟩
  | cons f rest ih =>
    simp only [drawFromFunds]
    split
    · exact ⟨s, remaining, rfl, fun _ hm => hm⟩
    · obtain ⟨s₁, remainder, hpay, hkeep⟩ := payDeficitFromInsuranceFund_exists
        (hfund f List.mem_cons_self) c.quoteDenom (shareOf f.2 remaining)
      obtain ⟨s', remaining', hrest, hkeep'⟩ :=
        ih (fun f' hf' => hkeep _ (hfund f' (List.mem_cons_of_mem f hf')))
          (remaining - (shareOf f.2 remaining - remainder))
      refine ⟨s', remaining', ?_, fun m hm => hkeep' m (hkeep m hm)⟩
      rw [hsend, hpay]
      exact hrest

end Passes

/-! ## The two passes -/

section Draw

variable {c : LiquidationContext LegacyDec} {s s' : LiquidationState LegacyDec}
  {poolMarketIDs : List Hash} {deficit remaining : LegacyDec}

theorem mem_insuranceFundEntries {f : Hash × LegacyDec}
    (hf : f ∈ insuranceFundEntries s poolMarketIDs) :
    f.1 ∈ poolMarketIDs ∧ 0 < fundBalance s f.1 ∧ f.2 = newDec (fundBalance s f.1) := by
  obtain ⟨m, hm, rfl⟩ := List.mem_map.mp hf
  obtain ⟨hmem, hpos⟩ := List.mem_filter.mp hm
  exact ⟨hmem, of_decide_eq_true hpos, rfl⟩

theorem quo_nonneg {x y : LegacyDec} (hx : 0 ≤ x) (hy : 0 ≤ y) : 0 ≤ quo x y := by
  have hx0 : 0 ≤ x.raw := hx
  have hy0 : 0 ≤ y.raw := hy
  refine HalfEven.chopAndRound_nonneg (Int.tdiv_nonneg ?_ hy0) _
  positivity

/-- The share of a fund in the first pass lies between zero and what remains. -/
theorem proportionalShare_bounds {total balance : LegacyDec} (hdeficit : 0 ≤ deficit)
    (htotal : 0 ≤ total) (hbalance : 0 ≤ balance) {r : LegacyDec} (hr : 0 < r) :
    0 ≤ proportionalShare deficit total balance r ∧
      proportionalShare deficit total balance r ≤ r := by
  have hshare : (0 : LegacyDec) ≤ newDec (truncateInt (quo (mul deficit balance) total)) :=
    newDec_nonneg
      (truncateInt_nonneg (quo_nonneg (DecArith.mul_nonneg hdeficit hbalance) htotal))
  exact ⟨le_min (le_min hshare hbalance) hr.le, min_le_right _ _⟩

theorem draw_spec (hdeficit : 0 < deficit)
    (h : drawDeficitFromInsuranceFundsProportionally c s poolMarketIDs deficit =
      .ok (s', remaining)) :
    Drawn s s' ∧ remaining = deficit - newDec (drawnFrom s s' poolMarketIDs.toFinset) ∧
      -one < remaining ∧
      (0 < remaining → ∀ f ∈ insuranceFundEntries s poolMarketIDs, fundBalance s' f.1 = 0) ∧
      ∀ m, m ∉ poolMarketIDs → s'.markets m = s.markets m := by
  have hentry : ∀ f ∈ insuranceFundEntries s poolMarketIDs, _ :=
    fun _ hf => mem_insuranceFundEntries hf
  have hmem : ∀ f ∈ insuranceFundEntries s poolMarketIDs, f.1 ∈ poolMarketIDs.toFinset :=
    fun f hf => List.mem_toFinset.mpr (hentry f hf).1
  have hstart : -one < deficit := (neg_lt_zero.mpr one_pos).trans hdeficit
  simp only [drawDeficitFromInsuranceFundsProportionally] at h
  split at h
  · cases h
  rename_i s₁ remaining₁ hfirst
  have hshares : Drawn s s₁ ∧
      remaining₁ = deficit - newDec (drawnFrom s s₁ poolMarketIDs.toFinset) ∧
      -one < remaining₁ ∧ ∀ m, m ∉ poolMarketIDs → s₁.markets m = s.markets m := by
    split at hfirst
    · rename_i htotal
      obtain ⟨hdrawn, hsum, hbound⟩ := drawFromFunds_drawn
        (fun f hf r hr => proportionalShare_bounds hdeficit.le htotal.le (by
          rw [(hentry f hf).2.2]
          exact newDec_nonneg (hentry f hf).2.1.le) hr)
        hmem (fun f hf => (hentry f hf).2.1.le) hstart hfirst
      refine ⟨hdrawn, hsum, hbound, fun m hm => drawFromFunds_others hfirst ?_⟩
      rintro f hf rfl
      exact hm (hentry f hf).1
    · obtain ⟨rfl, rfl⟩ := Prod.mk.inj (Except.ok.inj hfirst)
      exact ⟨Drawn.refl s, sub_drawnFrom_self _ _, hstart, fun _ _ => rfl⟩
  obtain ⟨hdrawn₁, hsum₁, hbound₁, hothers₁⟩ := hshares
  have hfund₁ : ∀ f ∈ insuranceFundEntries s poolMarketIDs, 0 ≤ fundBalance s₁ f.1 :=
    fun f hf => hdrawn₁.nonneg _ (hentry f hf).2.1.le
  obtain ⟨hdrawn₂, hsum₂, hbound₂⟩ := drawFromFunds_drawn
    (fun _ _ r hr => ⟨hr.le, le_refl r⟩) hmem hfund₁ hbound₁ h
  refine ⟨hdrawn₁.trans hdrawn₂, ?_, hbound₂, ?_, ?_⟩
  · rw [hsum₂, hsum₁, drawnFrom_trans s s₁ s', newDec_add]
    abel
  · exact fun hpos => drawFromFunds_exhausts hfund₁ hbound₁ h hpos
  · intro m hm
    rw [drawFromFunds_others h, hothers₁ m hm]
    rintro f hf rfl
    exact hm (hentry f hf).1

theorem draw_exists (hsend : c.insuranceSend = true) (deficit : LegacyDec) :
    ∃ r, drawDeficitFromInsuranceFundsProportionally c s poolMarketIDs deficit = .ok r := by
  have hfund : ∀ f ∈ insuranceFundEntries s poolMarketIDs,
      (s.markets f.1).insuranceFund.isSome := by
    intro f hf
    have hpos := (mem_insuranceFundEntries hf).2.1
    rw [fundBalance, MarketFunds.getInsuranceFundBalance] at hpos
    cases hnone : (s.markets f.1).insuranceFund with
    | none => rw [hnone] at hpos; exact absurd hpos (lt_irrefl 0)
    | some balance => rfl
  have hfirst : ∃ s₁ r₁, (if 0 < ((insuranceFundEntries s poolMarketIDs).map Prod.snd).sum then
        drawFromFunds c (proportionalShare deficit
          ((insuranceFundEntries s poolMarketIDs).map Prod.snd).sum)
          (insuranceFundEntries s poolMarketIDs) s deficit
      else .ok (s, deficit)) = .ok (s₁, r₁) ∧ ∀ m, (s.markets m).insuranceFund.isSome →
        (s₁.markets m).insuranceFund.isSome := by
    split
    · exact drawFromFunds_exists hsend _ hfund deficit
    · exact ⟨s, deficit, rfl, fun _ hm => hm⟩
  obtain ⟨s₁, r₁, hok₁, hkeep⟩ := hfirst
  obtain ⟨s', r', hok, -⟩ := drawFromFunds_exists hsend (fun _ r => r)
    (fun f hf => hkeep _ (hfund f hf)) r₁
  refine ⟨(s', r'), ?_⟩
  simp only [drawDeficitFromInsuranceFundsProportionally, hok₁]
  exact hok

/-- **COMPLETE AND BOUNDED**: the draw returns when the bank sends the coins; no fund pays
    more than it has, what it pays is credited to its market, and the funds together pay the
    deficit in whole coins, or all they have. -/
theorem draw_complete_and_bounded (c : LiquidationContext LegacyDec)
    (s : LiquidationState LegacyDec) (poolMarketIDs : List Hash) (deficit : LegacyDec)
    (hdeficit : 0 < deficit) (hfunds : ∀ m ∈ poolMarketIDs, 0 ≤ fundBalance s m) :
    (c.insuranceSend = true →
        ∃ r, drawDeficitFromInsuranceFundsProportionally c s poolMarketIDs deficit = .ok r) ∧
      ∀ s' remaining,
        drawDeficitFromInsuranceFundsProportionally c s poolMarketIDs deficit =
          .ok (s', remaining) →
        (∀ m ∈ poolMarketIDs,
          0 ≤ fundBalance s m - fundBalance s' m ∧
            fundBalance s m - fundBalance s' m ≤ fundBalance s m ∧
            (s'.markets m).marketBalance =
              (s.markets m).marketBalance + newDec (fundBalance s m - fundBalance s' m)) ∧
        (∀ m, m ∉ poolMarketIDs → s'.markets m = s.markets m) ∧
        (deficit ≤ newDec (∑ m ∈ poolMarketIDs.toFinset, fundBalance s m) →
          deficit ≤ newDec (drawnFrom s s' poolMarketIDs.toFinset) ∧
            newDec (drawnFrom s s' poolMarketIDs.toFinset) < deficit + one ∧ remaining ≤ 0) ∧
        (newDec (∑ m ∈ poolMarketIDs.toFinset, fundBalance s m) < deficit →
          drawnFrom s s' poolMarketIDs.toFinset =
              ∑ m ∈ poolMarketIDs.toFinset, fundBalance s m ∧
            remaining = deficit - newDec (drawnFrom s s' poolMarketIDs.toFinset) ∧
            0 < remaining) := by
  refine ⟨fun hsend => draw_exists hsend deficit, ?_⟩
  intro s' remaining h
  obtain ⟨hdrawn, hsum, hbound, hempty, hothers⟩ := draw_spec hdeficit h
  -- a deficit that remains has emptied every fund
  have hall : 0 < remaining → drawnFrom s s' poolMarketIDs.toFinset =
      ∑ m ∈ poolMarketIDs.toFinset, fundBalance s m := by
    intro hpos
    refine Finset.sum_congr rfl ?_
    intro m hm
    have hmem := List.mem_toFinset.mp hm
    have hnil : fundBalance s' m = 0 := by
      rcases eq_or_lt_of_le (hfunds m hmem) with hzero | hposm
      · have h1 := hdrawn.le m
        have h2 := hdrawn.nonneg m (hfunds m hmem)
        omega
      · exact hempty hpos (m, newDec (fundBalance s m))
          (List.mem_map.mpr ⟨m, List.mem_filter.mpr ⟨hmem, decide_eq_true hposm⟩, rfl⟩)
    rw [hnil, sub_zero]
  have hle : drawnFrom s s' poolMarketIDs.toFinset ≤
      ∑ m ∈ poolMarketIDs.toFinset, fundBalance s m := by
    refine Finset.sum_le_sum ?_
    intro m hm
    exact sub_le_self _ (hdrawn.nonneg m (hfunds m (List.mem_toFinset.mp hm)))
  refine ⟨?_, hothers, ?_, ?_⟩
  · intro m hm
    exact ⟨sub_nonneg.mpr (hdrawn.le m), sub_le_self _ (hdrawn.nonneg m (hfunds m hm)),
      hdrawn.credited m⟩
  · intro hcovered
    have hnonpos : remaining ≤ 0 := by
      by_contra hpos
      rw [not_le] at hpos
      have hdiff := hpos
      rw [hsum, hall hpos, sub_pos] at hdiff
      exact not_lt_of_ge hcovered hdiff
    refine ⟨?_, ?_, hnonpos⟩
    · rwa [hsum, sub_nonpos] at hnonpos
    · rw [hsum, neg_lt_iff_pos_add', ← add_sub_assoc, sub_pos, add_comm] at hbound
      exact hbound
  · intro hshort
    have hpos : 0 < remaining := by
      rw [hsum, sub_pos]
      exact lt_of_le_of_lt (newDec_le _ _ hle) hshort
    exact ⟨hall hpos, hsum, hpos⟩

/-- A liquidation in which every transfer succeeds. -/
def sampleContext : LiquidationContext LegacyDec where
  marketID := 7
  quoteDenom := "usdt"
  positionSubaccountID := 1
  liquidatorAddr := 0
  liquidatorRewardShareRate := ⟨5 * 10 ^ 17⟩
  bankSend := fun _ => true
  insuranceSend := true

/-- Two markets with 5 and 7 coins in their funds. -/
def twoFunds : LiquidationState LegacyDec :=
  { sampleState with markets := fun m => ⟨0, some (if m = 7 then 5 else 7)⟩ }

/-- A deficit of 10.5 is covered by 11 coins. -/
theorem draw_complete_and_bounded_twoFunds :
    ∃ s' remaining, drawDeficitFromInsuranceFundsProportionally sampleContext twoFunds [7, 8]
        ⟨105 * 10 ^ 17⟩ = .ok (s', remaining) ∧
      (⟨105 * 10 ^ 17⟩ : LegacyDec) ≤ newDec (drawnFrom twoFunds s' {7, 8}) ∧
      newDec (drawnFrom twoFunds s' {7, 8}) < (⟨105 * 10 ^ 17⟩ : LegacyDec) + one ∧
      remaining ≤ 0 := by
  have hfunds : ∀ m ∈ [(7 : Hash), 8], 0 ≤ fundBalance twoFunds m := by
    intro m _
    show (0 : ℤ) ≤ if m = 7 then 5 else 7
    split <;> decide
  obtain ⟨hreturns, hspec⟩ := draw_complete_and_bounded sampleContext twoFunds [7, 8]
    ⟨105 * 10 ^ 17⟩ (by decide) hfunds
  obtain ⟨⟨s', remaining⟩, hr⟩ := hreturns rfl
  obtain ⟨-, -, hcovered, -⟩ := hspec s' remaining hr
  exact ⟨s', remaining, hr, hcovered (by decide)⟩

end Draw

end ExchangeInsuranceDraw
