import InjectiveCore.ExchangeMarketBookProofs

/-!
# The open notional cap over two linked books

An order is held to the cap when its book is peeked: at its full remaining size, on top
of what both books have added, before it is known how much of it will be filled. The
second book is peeked while the first one has cached what its own order would add in
full. A trade then fills both orders with the smaller size, and a fill that closes,
flips or self-trades a position moves the open notional by less than was checked, or
down.

- `CapSpec`: what a book owes the cap; `limitOps_capSpec` and `marketOps_capSpec` say
  that limit and market order books pay it.
- `Proposed.fills`: one trade keeps the open notional within its bound after each of its
  two fills.
- `fillStates_within_cap` and `run_within_cap`: so does a whole run.
-/

namespace ExchangeOpenNotionalCap

open DecArith MatchLoop GrossExposure ExchangeFees ExchangeDerivativeFill ExchangeMatchState
  ExchangeDerivativeBook ExchangeLinkedBooks ExchangeMarketBook

variable {R D B B₁ B₂ : Type}

/-- The open notional as two linked books see it: the start value and what the fills of
    both sides have added. -/
def linkedNotional [DecArith D] (E : MatchEnv R D) (o₁ : BookOps R D B₁)
    (o₂ : BookOps R D B₂) (s : Linked R D B₁ B₂) : D :=
  E.currentOpenNotional + (o₁.counters s.first).addedOpenNotional +
    (o₂.counters s.second).addedOpenNotional

/-! ## Checked orders -/

theorem growth_signedFill [DecArith D] (isBuy : Bool) (p q : D) :
    growth p (signedFill isBuy q) = growth (signedFill isBuy p) q := by
  cases isBuy
  · exact growth_neg p q
  · rfl

theorem signedFill_not_add [DecArith D] (isBuy : Bool) (p q : D) :
    signedFill (!isBuy) (p + signedFill isBuy q) = -(signedFill isBuy p + q) := by
  cases isBuy
  · show p + -q = -(-p + q)
    rw [neg_add, neg_neg]
  · rfl

variable {E : MatchEnv R ℚ} {cap : ℚ}

section Capped

variable (hcap : E.fill.market.openNotionalCap = .capped cap)
include hcap

/-- An order that passed the check was admitted at its full size, and its notional delta
    is cached. -/
theorem admitted_of_passesCap {opposite : ℚ} {n : CapCounters ℚ} {c : MatchState R ℚ}
    {order : IDerivativeOrder ℚ} {q : ℚ} (hq : 0 ≤ q) (h : PassesCap E opposite n c order q) :
    let p := signedFill order.orderType.isBuy (c.matchedQuantity E order.subaccountID)
    n.cachedAddedOpenNotional = growth p q * E.mark ∧
      Admitted (n.getTotalOpenNotional E opposite) E.mark cap p q := by
  intro p
  rw [PassesCap, doesBreachOpenNotionalCap.eq_def, hcap] at h
  simp only [notionalDelta_eq_growth _ hq, growth_signedFill, mul_rat] at h
  by_cases hneg : growth p q * E.mark < 0
  · rw [if_pos hneg] at h
    exact ⟨(Prod.mk.inj h).2.symm, Or.inl hneg⟩
  · rw [if_neg hneg] at h
    obtain ⟨hbreach, hcached⟩ := Prod.mk.inj h
    exact ⟨hcached.symm, Or.inr (not_lt.mp (of_decide_eq_false hbreach))⟩

/-! ## Books under a cap -/

/-- What a book owes the open notional cap, on top of what it owes the positions. `Owner`
    names the subaccount of the order that the book offers. -/
structure CapSpec (E : MatchEnv R ℚ) (cap : ℚ) (o : BookOps R ℚ B) (isBuy : Bool)
    (Inv : B → Prop) (fills : B → Hash → ℚ)
    (Ready : B → MatchState R ℚ → PriceLevel ℚ → Prop) (Owner : B → Hash → Prop) : Prop
    extends PositionSpec E o isBuy Inv fills Ready where
  peek_added : ∀ x b c, Inv b → (o.counters (o.peek x b c).2.1).addedOpenNotional =
    (o.counters b).addedOpenNotional
  peek_admitted : ∀ x b c a, Inv b → (o.peek x b c).1 = some a →
    ∃ k, Owner (o.peek x b c).2.1 k ∧
      (o.counters (o.peek x b c).2.1).cachedAddedOpenNotional =
        growth (signedFill isBuy ((o.peek x b c).2.2.matchedQuantity E k)) a.quantity *
          E.mark ∧
      Admitted ((o.counters (o.peek x b c).2.1).getTotalOpenNotional E x) E.mark cap
        (signedFill isBuy ((o.peek x b c).2.2.matchedQuantity E k)) a.quantity
  fill_owner : ∀ b (c : MatchState R ℚ) a k q, Inv b → c.Valid → Ready b c a →
    Owner b k → 0 < q → q ≤ a.quantity →
    Filled E (o.counters b) c k (signedFill isBuy q) (o.counters (o.fill b c q).1)
      (o.fill b c q).2

variable {isBuy : Bool}

/-- A limit order book that is not of a liquidation holds its orders to the cap. -/
theorem limitOps_capSpec (side : SideOrders ℚ isBuy) :
    CapSpec E cap (limitOps E) isBuy
      (fun b => LimitOrderbook.Inv side b ∧ b.isLiquidation = false) limitFills
      (fun b c a => LimitOrderbook.view.current b a ∧
        ∃ l e, b.currState = some l ∧ b.queue.current l = some e ∧
          (c.positionCache e.order.orderInfo.subaccountID).isSome)
      (fun b k => ∃ l e, b.currState = some l ∧ b.queue.current l = some e ∧
        e.order.orderInfo.subaccountID = k) where
  toPositionSpec := by
    refine (limitOps_positionSpec E side).restrict ?_ ?_
    · intro x b c h hliq
      exact (LimitOrderbook.peek_spec h).kept.isLiquidation.trans hliq
    · rintro b c a q ⟨-, l, e, hl, hc, -⟩ hliq
      show (b.fill E c q).1.isLiquidation = false
      rw [LimitOrderbook.fill_eq hl hc]
      exact hliq
  peek_added _ _ _ h := (LimitOrderbook.peek_spec h.1).kept.added
  peek_admitted x b c a h ha := by
    have hpeek : LimitOrderbook.PeekResult E x side b c (b.peek E x c) :=
      LimitOrderbook.peek_spec h.1
    obtain ⟨l, e, offer, rfl⟩ := hpeek.some a ha
    obtain ⟨hcached, hadmitted⟩ := admitted_of_passesCap hcap
      (hpeek.inv.remaining_pos offer.current offer.live).le
      (offer.cap (hpeek.kept.isLiquidation.trans h.2))
    have hdirection : (IDerivativeOrder.limit e.order).orderType.isBuy = isBuy :=
      side.direction _ (hpeek.inv.order_mem (LimitOrderbook.current_mem offer.current))
    rw [hdirection] at hcached hadmitted
    exact ⟨_, ⟨l, e, offer.state, offer.current, rfl⟩, hcached, hadmitted⟩
  fill_owner b c a k q h hv hready howner hq _ := by
    obtain ⟨-, l, e, hl, hc, hcached⟩ := hready
    obtain ⟨l', e', hl', hc', rfl⟩ := howner
    obtain rfl := Option.some.inj (hl.symm.trans hl')
    obtain rfl := Option.some.inj (hc.symm.trans hc')
    exact LimitOrderbook.fill_filled h.1 hl hc hv hcached hq.le E

theorem marketOps_capSpec (side : MarketOrders ℚ isBuy) :
    CapSpec E cap (marketOps E) isBuy (MarketOrderbook.Inv side) marketFills
      (fun b c a => MarketOrderbook.view.current b a ∧ ∃ e rest, b.pending = e :: rest ∧
        (c.positionCache e.order.orderInfo.subaccountID).isSome)
      (fun b k => ∃ e rest, b.pending = e :: rest ∧ e.order.orderInfo.subaccountID = k) where
  toPositionSpec := marketOps_positionSpec E side
  peek_added _ _ _ _ := MarketOrderbook.peek_spec.kept.added
  peek_admitted x b c a h ha := by
    have hpeek : MarketOrderbook.PeekResult E x b c (b.peek E x c) := MarketOrderbook.peek_spec
    obtain ⟨e, rest, hp, -, -, hpasses, rfl⟩ := hpeek.some a ha
    have hinv := h.kept hpeek.kept
    have hmem := MarketOrderbook.head_mem hp
    obtain ⟨hcached, hadmitted⟩ := admitted_of_passesCap hcap (hinv.bounds e hmem).2 hpasses
    have hdirection : (IDerivativeOrder.market e.order).orderType.isBuy = isBuy :=
      side.direction e.order (hinv.orders ▸ List.mem_map_of_mem hmem)
    rw [hdirection] at hcached hadmitted
    exact ⟨_, ⟨e, rest, hp, rfl⟩, hcached, hadmitted⟩
  fill_owner b c a k q h hv hready howner hq _ := by
    obtain ⟨-, e, rest, hp, hcached⟩ := hready
    obtain ⟨e', rest', hp', rfl⟩ := howner
    obtain ⟨rfl, -⟩ := List.cons.inj (hp.symm.trans hp')
    exact MarketOrderbook.fill_filled h hp hv hcached hq.le E

end Capped

/-! ## A run under a cap -/

/-- What holds before every iteration: no order is pending, each book has added the mark
    price of its open interest, and the open notional is within its bound. -/
structure CapInv (E : MatchEnv R ℚ) (cap : ℚ) (o₁ : BookOps R ℚ B₁) (o₂ : BookOps R ℚ B₂)
    (Inv₁ : B₁ → Prop) (Inv₂ : B₂ → Prop) (s : Linked R ℚ B₁ B₂) : Prop where
  first : Inv₁ s.first
  second : Inv₂ s.second
  valid : s.state.Valid
  firstCached : (o₁.counters s.first).cachedAddedOpenNotional = 0
  secondCached : (o₂.counters s.second).cachedAddedOpenNotional = 0
  firstAdded : (o₁.counters s.first).addedOpenNotional =
    (o₁.counters s.first).openInterestDelta * E.mark
  secondAdded : (o₂.counters s.second).addedOpenNotional =
    (o₂.counters s.second).openInterestDelta * E.mark
  bound : linkedNotional E o₁ o₂ s ≤ max cap E.currentOpenNotional

/-- What is known of a proposed trade of quantity `q` between orders of `k₁` and `k₂` when
    the open notional is `N`. The second order was admitted on top of what the first one
    would add in full. -/
structure Proposed (E : MatchEnv R ℚ) (cap N q : ℚ) (o₁ : BookOps R ℚ B₁)
    (o₂ : BookOps R ℚ B₂) (isBuy : Bool) (Inv₁ : B₁ → Prop) (Inv₂ : B₂ → Prop)
    (Ready₁ : B₁ → MatchState R ℚ → PriceLevel ℚ → Prop)
    (Ready₂ : B₂ → MatchState R ℚ → PriceLevel ℚ → Prop) (Owner₁ : B₁ → Hash → Prop)
    (Owner₂ : B₂ → Hash → Prop) (s : Linked R ℚ B₁ B₂) (a b : PriceLevel ℚ)
    (k₁ k₂ : Hash) : Prop where
  first : Inv₁ s.first
  second : Inv₂ s.second
  valid : s.state.Valid
  firstAdded : (o₁.counters s.first).addedOpenNotional =
    (o₁.counters s.first).openInterestDelta * E.mark
  secondAdded : (o₂.counters s.second).addedOpenNotional =
    (o₂.counters s.second).openInterestDelta * E.mark
  notional : linkedNotional E o₁ o₂ s = N
  firstReady : Ready₁ s.first s.state a
  secondReady : Ready₂ s.second s.state b
  firstOwner : Owner₁ s.first k₁
  secondOwner : Owner₂ s.second k₂
  quantity : 0 < q
  firstQuantity : q ≤ a.quantity
  secondQuantity : q ≤ b.quantity
  firstAdmitted : Admitted N E.mark cap (signedFill isBuy (s.state.matchedQuantity E k₁))
    a.quantity
  secondAdmitted : Admitted
    (N + growth (signedFill isBuy (s.state.matchedQuantity E k₁)) a.quantity * E.mark)
    E.mark cap (signedFill (!isBuy) (s.state.matchedQuantity E k₂)) b.quantity

section Run

variable {o₁ : BookOps R ℚ B₁} {o₂ : BookOps R ℚ B₂} {isBuy : Bool} {Inv₁ : B₁ → Prop}
  {Inv₂ : B₂ → Prop} {fills₁ : B₁ → Hash → ℚ} {fills₂ : B₂ → Hash → ℚ}
  {Ready₁ : B₁ → MatchState R ℚ → PriceLevel ℚ → Prop}
  {Ready₂ : B₂ → MatchState R ℚ → PriceLevel ℚ → Prop} {Owner₁ : B₁ → Hash → Prop}
  {Owner₂ : B₂ → Hash → Prop} {crosses : ℚ → ℚ → Bool} {s s₂ : Linked R ℚ B₁ B₂}
  {t : Trade ℚ}

variable {c : MatchState R ℚ}

theorem added_of_filled {n n' : CapCounters ℚ} {c' : MatchState R ℚ} {k : Hash} {x : ℚ}
    (hfill : Filled E n c k x n' c') (h : n.addedOpenNotional = n.openInterestDelta * E.mark) :
    n'.addedOpenNotional = n'.openInterestDelta * E.mark := by
  rw [hfill.added, hfill.openInterest, h, mul_rat, add_mul]

theorem CapInv.start {b₁ : B₁} {b₂ : B₂} (h₁ : Inv₁ b₁) (h₂ : Inv₂ b₂) (hv : c.Valid)
    (hn₁ : o₁.counters b₁ = .initial) (hn₂ : o₂.counters b₂ = .initial) :
    CapInv E cap o₁ o₂ Inv₁ Inv₂ ⟨b₁, b₂, c⟩ := by
  refine ⟨h₁, h₂, hv, ?_, ?_, ?_, ?_, ?_⟩
  · show (o₁.counters b₁).cachedAddedOpenNotional = 0
    rw [hn₁]
    rfl
  · show (o₂.counters b₂).cachedAddedOpenNotional = 0
    rw [hn₂]
    rfl
  · show (o₁.counters b₁).addedOpenNotional = (o₁.counters b₁).openInterestDelta * _
    rw [hn₁]
    exact (zero_mul _).symm
  · show (o₂.counters b₂).addedOpenNotional = (o₂.counters b₂).openInterestDelta * _
    rw [hn₂]
    exact (zero_mul _).symm
  · show E.currentOpenNotional + (o₁.counters b₁).addedOpenNotional +
      (o₂.counters b₂).addedOpenNotional ≤ _
    rw [hn₁, hn₂]
    show E.currentOpenNotional + 0 + 0 ≤ _
    rw [add_zero, add_zero]
    exact le_max_right _ _

variable (h₁ : CapSpec E cap o₁ isBuy Inv₁ fills₁ Ready₁ Owner₁)
  (h₂ : CapSpec E cap o₂ (!isBuy) Inv₂ fills₂ Ready₂ Owner₂)
include h₁ h₂

theorem CapInv.propose (h : CapInv E cap o₁ o₂ Inv₁ Inv₂ s)
    (hp : (linkedSides o₁ o₂ crosses).propose s = (some t, s₂)) :
    ∃ a b k₁ k₂, Proposed E cap (linkedNotional E o₁ o₂ s) t.quantity o₁ o₂ isBuy Inv₁ Inv₂
      Ready₁ Ready₂ Owner₁ Owner₂ s₂ a b k₁ k₂ := by
  obtain ⟨a, b, ha, hb, -, rfl, rfl⟩ := Sides.propose_some hp
  dsimp only [linkedSides] at ha hb
  set opposite := (o₂.counters s.second).getAddedOpenNotional with hopposite
  obtain ⟨hready₁, hx⟩ := h₁.peek_ready _ _ _ a h.first ha
  obtain ⟨hready₂, hy⟩ := h₂.peek_ready _ _ _ b h.second hb
  obtain ⟨k₁, howner₁, hcached, hadmitted₁⟩ := h₁.peek_admitted _ _ _ a h.first ha
  obtain ⟨k₂, howner₂, -, hadmitted₂⟩ := h₂.peek_admitted _ _ _ b h.second hb
  have hadded₁ := h₁.peek_added opposite s.first s.state h.first
  have hinterest₁ := h₁.peek_openInterest opposite s.first s.state h.first
  have hstate₁ := h₁.peek_state opposite s.first s.state h.first
  set r₁ := o₁.peek opposite s.first s.state
  have hadded₂ := h₂.peek_added (o₁.counters r₁.2.1).getAddedOpenNotional s.second r₁.2.2 h.second
  have hinterest₂ := h₂.peek_openInterest (o₁.counters r₁.2.1).getAddedOpenNotional s.second
    r₁.2.2 h.second
  have hstate₂ := h₂.peek_state (o₁.counters r₁.2.1).getAddedOpenNotional s.second r₁.2.2 h.second
  set r₂ := o₂.peek (o₁.counters r₁.2.1).getAddedOpenNotional s.second r₁.2.2
  -- what each order is checked against
  have htotal₁ : (o₁.counters r₁.2.1).getTotalOpenNotional E opposite =
      linkedNotional E o₁ o₂ s := by
    simp only [CapCounters.getTotalOpenNotional, hopposite,
      CapCounters.getAddedOpenNotional, linkedNotional, hadded₁, h.secondCached, add_zero]
  have htotal₂ : (o₂.counters r₂.2.1).getTotalOpenNotional E
      (o₁.counters r₁.2.1).getAddedOpenNotional = linkedNotional E o₁ o₂ s +
        growth (signedFill isBuy (r₁.2.2.matchedQuantity E k₁)) a.quantity * E.mark := by
    simp only [CapCounters.getTotalOpenNotional, CapCounters.getAddedOpenNotional,
      linkedNotional, hadded₁, hadded₂, hcached]
    ring
  rw [htotal₁, ← hstate₂.matched] at hadmitted₁
  refine ⟨a, b, k₁, k₂, h₁.peek_inv _ _ _ h.first, h₂.peek_inv _ _ _ h.second,
    hstate₂.valid (hstate₁.valid h.valid), ?_, ?_, ?_,
    h₁.ready_mono _ _ _ a hready₁ hstate₂.keepsCache, hready₂, howner₁, howner₂,
    lt_min hx hy, min_le_left _ _, min_le_right _ _, hadmitted₁, ?_⟩
  · exact hadded₁.trans (h.firstAdded.trans (congrArg (· * _) hinterest₁.symm))
  · exact hadded₂.trans (h.secondAdded.trans (congrArg (· * _) hinterest₂.symm))
  · show _ + (o₁.counters r₁.2.1).addedOpenNotional +
      (o₂.counters r₂.2.1).addedOpenNotional = _
    rw [hadded₁, hadded₂]
    rfl
  · rw [htotal₂, ← hstate₂.matched] at hadmitted₂
    exact hadmitted₂

/-- **ONE TRADE**: both of its fills leave the open notional within the bound. -/
theorem Proposed.fills {N q : ℚ} {a b : PriceLevel ℚ} {k₁ k₂ : Hash}
    (h : Proposed E cap N q o₁ o₂ isBuy Inv₁ Inv₂ Ready₁ Ready₂ Owner₁ Owner₂ s a b k₁ k₂)
    (hN : N ≤ max cap E.currentOpenNotional) (crosses : ℚ → ℚ → Bool) :
    let s₃ := (linkedSides o₁ o₂ crosses).fillFirst s q
    linkedNotional E o₁ o₂ s₃ ≤ max cap E.currentOpenNotional ∧
      CapInv E cap o₁ o₂ Inv₁ Inv₂ ((linkedSides o₁ o₂ crosses).fillSecond s₃ q) := by
  intro s₃
  have hmark : 0 ≤ E.mark := E.markPrice_nonneg
  have hfill₁ := h₁.fill_owner s.first s.state a k₁ q h.first h.valid h.firstReady
    h.firstOwner h.quantity h.firstQuantity
  have hready₂ := h₂.ready_mono _ _ _ b h.secondReady hfill₁.cache
  have hfill₂ := h₂.fill_owner s.second s₃.state b k₂ q h.second hfill₁.valid hready₂
    h.secondOwner h.quantity h.secondQuantity
  have hbound : max cap N ≤ max cap E.currentOpenNotional := max_le (le_max_left _ _) hN
  set p := signedFill isBuy (s.state.matchedQuantity E k₁) with hp
  have hafter₁ : linkedNotional E o₁ o₂ s₃ = N + growth p q * E.mark := by
    rw [← h.notional]
    show _ + (o₁.counters (o₁.fill s.first s.state q).1).addedOpenNotional +
      (o₂.counters s.second).addedOpenNotional = _ + _ + _ + _
    rw [hfill₁.added, mul_rat, growth_signedFill]
    ring
  have hafter₂ : linkedNotional E o₁ o₂ ((linkedSides o₁ o₂ crosses).fillSecond s₃ q) =
      linkedNotional E o₁ o₂ s₃ +
        growth (signedFill (!isBuy) (s₃.state.matchedQuantity E k₂)) q * E.mark := by
    have hadded := hfill₂.added
    rw [mul_rat, growth_signedFill] at hadded
    show _ + (o₁.counters s₃.first).addedOpenNotional +
      (o₂.counters (o₂.fill s.second s₃.state q).1).addedOpenNotional = _ + _ + _ + _
    rw [hadded, ← add_assoc]
    rfl
  have hbound₁ : linkedNotional E o₁ o₂ s₃ ≤ max cap E.currentOpenNotional := by
    rw [hafter₁]
    exact (one_leg_within_cap hmark h.quantity.le h.firstQuantity h.firstAdmitted).trans hbound
  refine ⟨hbound₁, ?_, ?_, hfill₂.valid, hfill₁.cached, hfill₂.cached,
    added_of_filled hfill₁ h.firstAdded, added_of_filled hfill₂ h.secondAdded, ?_⟩
  · exact h₁.fill_inv _ _ a q h.first h.firstReady h.quantity h.firstQuantity
  · exact h₂.fill_inv _ _ b q h.second hready₂ h.quantity h.secondQuantity
  · have hmatched : s₃.state.matchedQuantity E =
        s.state.matchedQuantity E + Pi.single k₁ (signedFill isBuy q) := hfill₁.matched
    rw [hafter₂, hafter₁, hmatched, Pi.add_apply]
    refine le_trans ?_ hbound
    by_cases hself : k₂ = k₁
    · -- a self-trade: the second fill takes back what the first one added
      rw [hself, Pi.single_eq_same, signedFill_not_add, ← hp, ← growth_neg, add_assoc,
        ← add_mul, growth_back, zero_mul, add_zero]
      exact le_max_right _ _
    · rw [Pi.single_eq_of_ne hself, add_zero]
      exact two_legs_within_cap hmark h.quantity.le h.firstQuantity h.secondQuantity
        h.firstAdmitted h.secondAdmitted

theorem CapInv.trade (h : CapInv E cap o₁ o₂ Inv₁ Inv₂ s)
    (hp : (linkedSides o₁ o₂ crosses).propose s = (some t, s₂)) :
    let s₃ := (linkedSides o₁ o₂ crosses).fillFirst s₂ t.quantity
    linkedNotional E o₁ o₂ s₃ ≤ max cap E.currentOpenNotional ∧
      CapInv E cap o₁ o₂ Inv₁ Inv₂ ((linkedSides o₁ o₂ crosses).fillSecond s₃ t.quantity) := by
  obtain ⟨a, b, k₁, k₂, hproposed⟩ := h.propose h₁ h₂ hp
  exact hproposed.fills h₁ h₂ h.bound crosses

theorem fillStates_within_cap (h : CapInv E cap o₁ o₂ Inv₁ Inv₂ s) (n : ℕ) :
    ∀ s' ∈ (linkedSides o₁ o₂ crosses).fillStates n s,
      linkedNotional E o₁ o₂ s' ≤ max cap E.currentOpenNotional := by
  refine Sides.fillStates_invariant (I := CapInv E cap o₁ o₂ Inv₁ Inv₂) ?_ n h
  intro s t s₂ h hp
  obtain ⟨hfirst, hsecond⟩ := h.trade h₁ h₂ hp
  exact ⟨hfirst, hsecond.bound, hsecond⟩

/-- **A WHOLE RUN** adds open interest whose mark price, on top of the start value, is
    within the bound. -/
theorem run_within_cap (h : CapInv E cap o₁ o₂ Inv₁ Inv₂ s) {n : ℕ}
    {ts : List (Trade ℚ)} {s' : Linked R ℚ B₁ B₂}
    (hrun : (linkedSides o₁ o₂ crosses).run n s = some (ts, s')) :
    E.currentOpenNotional + ((o₁.counters s'.first).openInterestDelta +
      (o₂.counters s'.second).openInterestDelta) * E.mark ≤ max cap E.currentOpenNotional := by
  obtain ⟨s₀, hs₀, hend⟩ := Sides.run_invariant
    (I := fun _ u => CapInv E cap o₁ o₂ Inv₁ Inv₂ u)
    (by
      intro _ u t u' hu hstep
      obtain ⟨u₂, hpropose, rfl⟩ := Sides.step_some hstep
      exact (hu.trade h₁ h₂ hpropose).2) hrun h
  -- the last peeks find nothing to trade and leave the counters alone
  obtain ⟨rfl, -⟩ := Sides.propose_none (Sides.step_none hend)
  have hbound := hs₀.bound
  simp only [linkedNotional, hs₀.firstAdded, hs₀.secondAdded, add_assoc] at hbound
  show _ + ((o₁.counters (o₁.peek _ s₀.first s₀.state).2.1).openInterestDelta +
    (o₂.counters (o₂.peek _ s₀.second _).2.1).openInterestDelta) * _ ≤ _
  rw [h₁.peek_openInterest _ _ _ hs₀.first, h₂.peek_openInterest _ _ _ hs₀.second, add_mul]
  exact hbound

end Run

end ExchangeOpenNotionalCap
