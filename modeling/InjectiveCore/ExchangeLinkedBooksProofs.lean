import InjectiveCore.ExchangeDerivativeBookProofs

/-!
# Two linked derivative books

Matching runs over two order books that share the positions of the batch and read each
other's added open notional. `BookOps` is what the loop needs of a book, so that one
argument covers an auction between two limit books and market orders against a limit
book.

`PositionSpec` is what a book owes the shared positions: a peek only looks positions up,
and a fill adds its signed quantity to one subaccount. From it follows, over any run
(`run_tracked`), that the matched position of every subaccount is its initial position
plus its buys minus its sells, and that the two open interest counters together hold the
change of the gross position.
-/

namespace ExchangeLinkedBooks

open DecArith MatchLoop TwoQueue GrossExposure ExchangePosition ExchangeFees ExchangeFba
  ExchangeDerivativeFill ExchangeMatchState ExchangeDerivativeBook

variable {R D B₁ B₂ : Type} [DecArith D]

/-- How a book is peeked and filled on the shared state. A peek is told what the opposite
    side has added to the open notional. -/
structure BookOps (R D B : Type) where
  peek : D → B → MatchState R D → Option (PriceLevel D) × B × MatchState R D
  fill : B → MatchState R D → D → B × MatchState R D
  counters : B → CapCounters D

/-- The two books of a match and what they share. -/
structure Linked (R D B₁ B₂ : Type) where
  first : B₁
  second : B₂
  state : MatchState R D

/-- The two books as sides of the matching loop (`SetOppositeSideDerivativeOrderbook`). -/
def linkedSides (o₁ : BookOps R D B₁) (o₂ : BookOps R D B₂) (crosses : D → D → Bool) :
    Sides (Linked R D B₁ B₂) D where
  peekFirst s :=
    let r := o₁.peek (o₂.counters s.second).getAddedOpenNotional s.first s.state
    (r.1, { s with first := r.2.1, state := r.2.2 })
  peekSecond s :=
    let r := o₂.peek (o₁.counters s.first).getAddedOpenNotional s.second s.state
    (r.1, { s with second := r.2.1, state := r.2.2 })
  fillFirst s q :=
    { s with first := (o₁.fill s.first s.state q).1, state := (o₁.fill s.first s.state q).2 }
  fillSecond s q :=
    { s with second := (o₂.fill s.second s.state q).1
             state := (o₂.fill s.second s.state q).2 }
  crosses := crosses

/-- A book of the loop, alone: peeked and filled for a fixed rest of the state. -/
def BookOps.PriceOrdered {B : Type} (o : BookOps R D B) (Inv : B → Prop)
    (noBetter : D → D → Prop) (V : View B D) : Prop :=
  (∀ p, noBetter p p) ∧ (∀ p p' p'', noBetter p p' → noBetter p' p'' → noBetter p p'') ∧
    ∀ i : D × MatchState R D,
      SideSpec Inv noBetter (fun b => ((o.peek i.1 b i.2).1, (o.peek i.1 b i.2).2.1))
        (fun b q => (o.fill b i.2 q).1) V View.blank

theorem linkedSides_spec {o₁ : BookOps R D B₁} {o₂ : BookOps R D B₂}
    {Inv₁ : B₁ → Prop} {Inv₂ : B₂ → Prop} {noBetter₁ noBetter₂ : D → D → Prop}
    {V₁ : View B₁ D} {V₂ : View B₂ D} (crosses : D → D → Bool)
    (h₁ : o₁.PriceOrdered Inv₁ noBetter₁ V₁) (h₂ : o₂.PriceOrdered Inv₂ noBetter₂ V₂) :
    SideSpec (fun s : Linked R D B₁ B₂ => Inv₁ s.first ∧ Inv₂ s.second) noBetter₁
        (linkedSides o₁ o₂ crosses).peekFirst (linkedSides o₁ o₂ crosses).fillFirst
        (V₁.comap Linked.first) (V₂.comap Linked.second) ∧
      SideSpec (fun s : Linked R D B₁ B₂ => Inv₁ s.first ∧ Inv₂ s.second) noBetter₂
        (linkedSides o₁ o₂ crosses).peekSecond (linkedSides o₁ o₂ crosses).fillSecond
        (V₂.comap Linked.second) (V₁.comap Linked.first) := by
  constructor
  · refine SideSpec.ofBook
      (fun s => ((o₂.counters s.second).getAddedOpenNotional, s.state)) V₂ h₁.1 h₁.2.1
      h₁.2.2 (fun s hs => hs.1) ?_ (fun _ => rfl) (fun _ _ => rfl) (fun _ => rfl)
      (fun _ _ => rfl)
    intro s s' hs hinv hother
    exact ⟨hinv, hother ▸ hs.2⟩
  · refine SideSpec.ofBook
      (fun s => ((o₁.counters s.first).getAddedOpenNotional, s.state)) V₁ h₂.1 h₂.2.1
      h₂.2.2 (fun s hs => hs.2) ?_ (fun _ => rfl) (fun _ _ => rfl) (fun _ => rfl)
      (fun _ _ => rfl)
    intro s s' hs hinv hother
    exact ⟨hother ▸ hs.1, hinv⟩

/-! ## Positions through a run -/

/-- What a book owes the shared positions. `fills` is the quantity filled for each
    subaccount; `Ready b c a` says that the book offers the level `a` and that the
    position of the order behind it is cached. -/
structure PositionSpec {B : Type} (E : MatchEnv R D) (o : BookOps R D B) (isBuy : Bool)
    (Inv : B → Prop) (fills : B → Hash → D)
    (Ready : B → MatchState R D → PriceLevel D → Prop) : Prop where
  peek_inv : ∀ x b c, Inv b → Inv (o.peek x b c).2.1
  peek_state : ∀ x b (c : MatchState R D), Inv b → c.Extends E (o.peek x b c).2.2
  peek_fills : ∀ x b c, Inv b → fills (o.peek x b c).2.1 = fills b
  peek_openInterest : ∀ x b c, Inv b → (o.counters (o.peek x b c).2.1).openInterestDelta =
    (o.counters b).openInterestDelta
  peek_ready : ∀ x b c a, Inv b → (o.peek x b c).1 = some a →
    Ready (o.peek x b c).2.1 (o.peek x b c).2.2 a ∧ 0 < a.quantity
  ready_mono : ∀ b (c c' : MatchState R D) a, Ready b c a → c.KeepsCache c' → Ready b c' a
  fill_inv : ∀ b c a q, Inv b → Ready b c a → 0 < q → q ≤ a.quantity →
    Inv (o.fill b c q).1
  fill_state : ∀ b (c : MatchState R D) a q, Inv b → c.Valid → Ready b c a → 0 < q →
    q ≤ a.quantity →
    ∃ s, fills (o.fill b c q).1 = fills b + Pi.single s q ∧
      Filled E (o.counters b) c s (signedFill isBuy q) (o.counters (o.fill b c q).1)
        (o.fill b c q).2

/-- A book keeps what it owes when its invariant is read together with a setting that no
    peek or fill changes. -/
theorem PositionSpec.restrict {B : Type} {E : MatchEnv R D} {o : BookOps R D B}
    {isBuy : Bool} {Inv P : B → Prop} {fills : B → Hash → D}
    {Ready : B → MatchState R D → PriceLevel D → Prop}
    (h : PositionSpec E o isBuy Inv fills Ready)
    (hpeek : ∀ x b c, Inv b → P b → P (o.peek x b c).2.1)
    (hfill : ∀ b c a q, Ready b c a → P b → P (o.fill b c q).1) :
    PositionSpec E o isBuy (fun b => Inv b ∧ P b) fills Ready where
  peek_inv x b c hb := ⟨h.peek_inv x b c hb.1, hpeek x b c hb.1 hb.2⟩
  peek_state x b c hb := h.peek_state x b c hb.1
  peek_fills x b c hb := h.peek_fills x b c hb.1
  peek_openInterest x b c hb := h.peek_openInterest x b c hb.1
  peek_ready x b c a hb := h.peek_ready x b c a hb.1
  ready_mono := h.ready_mono
  fill_inv b c a q hb hready hq hle :=
    ⟨h.fill_inv b c a q hb.1 hready hq hle, hfill b c a q hready hb.2⟩
  fill_state b c a q hb := h.fill_state b c a q hb.1

/-- Quantities of a side, signed. -/
def signedFills (isBuy : Bool) (fills : Hash → D) : Hash → D :=
  if isBuy then fills else -fills

theorem signedFills_add_single (isBuy : Bool) (fills : Hash → D) (s : Hash) (q : D) :
    signedFills isBuy (fills + Pi.single s q) =
      signedFills isBuy fills + Pi.single s (signedFill isBuy q) := by
  cases isBuy
  · show -(fills + Pi.single s q) = -fills + Pi.single s (-q)
    rw [neg_add, Pi.single_neg]
  · rfl

/-- What holds at every point of a run over two linked books that started from the
    exposures `v`: positions are the initial ones plus the fills of both sides, and the
    counters hold the growth of the gross. -/
structure Tracked (E : MatchEnv R D) (o₁ : BookOps R D B₁) (o₂ : BookOps R D B₂)
    (isBuy : Bool) (Inv₁ : B₁ → Prop) (Inv₂ : B₂ → Prop) (fills₁ : B₁ → Hash → D)
    (fills₂ : B₂ → Hash → D) (v : Hash → D) (s : Linked R D B₁ B₂) : Prop where
  first : Inv₁ s.first
  second : Inv₂ s.second
  valid : s.state.Valid
  settled : s.state.settledQuantity E = v
  matched : s.state.matchedQuantity E =
    v + signedFills isBuy (fills₁ s.first) + signedFills (!isBuy) (fills₂ s.second)
  openInterest : (o₁.counters s.first).openInterestDelta +
      (o₂.counters s.second).openInterestDelta =
    gross (s.state.matchedQuantity E) - gross v

theorem signedFills_zero (isBuy : Bool) : signedFills isBuy (0 : Hash → D) = 0 := by
  cases isBuy
  · exact neg_zero
  · rfl

theorem net_signedFills (isBuy : Bool) (fills : Hash → D) :
    net (signedFills isBuy fills) = signedFill isBuy (net fills) := by
  cases isBuy
  · exact net_neg fills
  · rfl

section Run

variable {E : MatchEnv R D} {o₁ : BookOps R D B₁} {o₂ : BookOps R D B₂} {isBuy : Bool}
  {Inv₁ : B₁ → Prop} {Inv₂ : B₂ → Prop} {fills₁ : B₁ → Hash → D} {fills₂ : B₂ → Hash → D}
  {Ready₁ : B₁ → MatchState R D → PriceLevel D → Prop}
  {Ready₂ : B₂ → MatchState R D → PriceLevel D → Prop} {crosses : D → D → Bool}
  {v : Hash → D} {s : Linked R D B₁ B₂}

/-- A run starts where matching has nothing in flight: the cached positions read as the
    settled ones. -/
theorem Tracked.start {b₁ : B₁} {b₂ : B₂} {c : MatchState R D} (h₁ : Inv₁ b₁) (h₂ : Inv₂ b₂)
    (hv : c.Valid) (hs : c.settledQuantity E = v) (hm : c.matchedQuantity E = v)
    (hf₁ : fills₁ b₁ = 0) (hf₂ : fills₂ b₂ = 0)
    (hn₁ : (o₁.counters b₁).openInterestDelta = 0)
    (hn₂ : (o₂.counters b₂).openInterestDelta = 0) :
    Tracked E o₁ o₂ isBuy Inv₁ Inv₂ fills₁ fills₂ v ⟨b₁, b₂, c⟩ := by
  refine ⟨h₁, h₂, hv, hs, ?_, ?_⟩
  · show c.matchedQuantity E = v + signedFills isBuy (fills₁ b₁) +
      signedFills (!isBuy) (fills₂ b₂)
    rw [hm, hf₁, hf₂, signedFills_zero, signedFills_zero, add_zero, add_zero]
  · show (o₁.counters b₁).openInterestDelta + (o₂.counters b₂).openInterestDelta =
      gross (c.matchedQuantity E) - gross v
    rw [hn₁, hn₂, hm, add_zero, sub_self]

theorem Tracked.net_eq (h : Tracked E o₁ o₂ isBuy Inv₁ Inv₂ fills₁ fills₂ v s)
    (hequal : net (fills₁ s.first) = net (fills₂ s.second)) :
    net (s.state.matchedQuantity E) = net v := by
  rw [h.matched, net_add, net_add, net_signedFills, net_signedFills, hequal]
  cases isBuy
  · exact neg_add_cancel_right _ _
  · exact add_neg_cancel_right _ _

/-- The two books the other way round. -/
def Linked.swap (s : Linked R D B₁ B₂) : Linked R D B₂ B₁ := ⟨s.second, s.first, s.state⟩

theorem Tracked.swap (h : Tracked E o₁ o₂ isBuy Inv₁ Inv₂ fills₁ fills₂ v s) :
    Tracked E o₂ o₁ (!isBuy) Inv₂ Inv₁ fills₂ fills₁ v s.swap where
  first := h.second
  second := h.first
  valid := h.valid
  settled := h.settled
  matched := by
    rw [Bool.not_not]
    exact h.matched.trans (add_right_comm _ _ _)
  openInterest := (add_comm _ _).trans h.openInterest

theorem Tracked.of_swap (h : Tracked E o₂ o₁ (!isBuy) Inv₂ Inv₁ fills₂ fills₁ v s.swap) :
    Tracked E o₁ o₂ isBuy Inv₁ Inv₂ fills₁ fills₂ v s :=
  Bool.not_not isBuy ▸ h.swap

section First

variable (h₁ : PositionSpec E o₁ isBuy Inv₁ fills₁ Ready₁)
  (h : Tracked E o₁ o₂ isBuy Inv₁ Inv₂ fills₁ fills₂ v s)
include h₁ h

theorem Tracked.peekFirst (crosses : D → D → Bool) :
    Tracked E o₁ o₂ isBuy Inv₁ Inv₂ fills₁ fills₂ v
      ((linkedSides o₁ o₂ crosses).peekFirst s).2 := by
  have hext := h₁.peek_state (o₂.counters s.second).getAddedOpenNotional s.first s.state h.first
  refine ⟨h₁.peek_inv _ _ _ h.first, h.second, hext.valid h.valid,
    hext.settled.trans h.settled, ?_, ?_⟩
  · refine hext.matched.trans (h.matched.trans ?_)
    show _ = v + signedFills isBuy (fills₁ (o₁.peek _ s.first s.state).2.1) + _
    rw [h₁.peek_fills _ _ _ h.first]
    rfl
  · show (o₁.counters (o₁.peek _ s.first s.state).2.1).openInterestDelta +
        (o₂.counters s.second).openInterestDelta =
      gross ((o₁.peek _ s.first s.state).2.2.matchedQuantity E) - gross v
    rw [h₁.peek_openInterest _ _ _ h.first, hext.matched]
    exact h.openInterest

theorem Tracked.fillFirst {a : PriceLevel D} {q : D} (hready : Ready₁ s.first s.state a)
    (hq : 0 < q) (hle : q ≤ a.quantity) (crosses : D → D → Bool) :
    Tracked E o₁ o₂ isBuy Inv₁ Inv₂ fills₁ fills₂ v
      ((linkedSides o₁ o₂ crosses).fillFirst s q) := by
  obtain ⟨k, hfills, hfilled⟩ := h₁.fill_state s.first s.state a q h.first h.valid hready hq hle
  refine ⟨h₁.fill_inv _ _ a q h.first hready hq hle, h.second, hfilled.valid,
    hfilled.settled.trans h.settled, ?_, ?_⟩
  · refine hfilled.matched.trans ?_
    show _ = v + signedFills isBuy (fills₁ (o₁.fill s.first s.state q).1) +
      signedFills (!isBuy) (fills₂ s.second)
    rw [hfills, signedFills_add_single, h.matched]
    abel
  · show (o₁.counters (o₁.fill s.first s.state q).1).openInterestDelta +
        (o₂.counters s.second).openInterestDelta =
      gross ((o₁.fill s.first s.state q).2.matchedQuantity E) - gross v
    rw [hfilled.openInterest, hfilled.matched, gross_add_single, add_right_comm, h.openInterest]
    abel

end First

section Tracking

variable (h₁ : PositionSpec E o₁ isBuy Inv₁ fills₁ Ready₁)
  (h₂ : PositionSpec E o₂ (!isBuy) Inv₂ fills₂ Ready₂)
  (h : Tracked E o₁ o₂ isBuy Inv₁ Inv₂ fills₁ fills₂ v s)
include h₁ h₂ h

theorem Tracked.propose {t : Trade D} {s₂ : Linked R D B₁ B₂}
    (hp : (linkedSides o₁ o₂ crosses).propose s = (some t, s₂)) :
    Tracked E o₁ o₂ isBuy Inv₁ Inv₂ fills₁ fills₂ v s₂ ∧ 0 < t.quantity ∧
      (∃ a, Ready₁ s₂.first s₂.state a ∧ t.quantity ≤ a.quantity) ∧
      ∃ b, Ready₂ s₂.second s₂.state b ∧ t.quantity ≤ b.quantity := by
  obtain ⟨a, b, ha, hb, -, rfl, rfl⟩ := Sides.propose_some hp
  have ht₁ := h.peekFirst h₁ crosses
  have ht₂ := ht₁.swap.peekFirst h₂ crosses
  obtain ⟨hready₁, hqa⟩ := h₁.peek_ready _ _ _ a h.first ha
  obtain ⟨hready₂, hqb⟩ := h₂.peek_ready _ _ _ b ht₁.second hb
  refine ⟨ht₂.of_swap, lt_min hqa hqb, ⟨a, ?_, min_le_left _ _⟩, b, hready₂, min_le_right _ _⟩
  exact h₁.ready_mono _ _ _ a hready₁ (h₂.peek_state _ _ _ ht₁.second).keepsCache

/-- **OPEN INTEREST THROUGH A RUN**: at the end of a run the positions are the initial
    ones plus all fills, and the counters hold the growth of the gross, in whatever order
    the fills came. -/
theorem run_tracked {n : ℕ} {ts : List (Trade D)} {s' : Linked R D B₁ B₂}
    (hrun : (linkedSides o₁ o₂ crosses).run n s = some (ts, s')) :
    Tracked E o₁ o₂ isBuy Inv₁ Inv₂ fills₁ fills₂ v s' := by
  obtain ⟨s₀, hs₀, hend⟩ := Sides.run_invariant
    (I := fun _ u => Tracked E o₁ o₂ isBuy Inv₁ Inv₂ fills₁ fills₂ v u)
    (by
      intro _ u t u' hu hstep
      obtain ⟨u₂, hpropose, rfl⟩ := Sides.step_some hstep
      obtain ⟨hu₂, hq, ⟨a, hready₁, hqa⟩, b, hready₂, hqb⟩ := hu.propose h₁ h₂ hpropose
      obtain ⟨k, -, hfilled⟩ := h₁.fill_state _ _ a _ hu₂.first hu₂.valid hready₁ hq hqa
      -- the first fill leaves the second book ready
      have hu₃ := hu₂.fillFirst h₁ hready₁ hq hqa crosses
      have hready := h₂.ready_mono _ _ _ b hready₂ hfilled.cache
      exact (hu₃.swap.fillFirst h₂ hready hq hqb crosses).of_swap) hrun h
  obtain ⟨rfl, -⟩ := Sides.propose_none (Sides.step_none hend)
  exact ((hs₀.peekFirst h₁ crosses).swap.peekFirst h₂ crosses).of_swap

end Tracking

end Run

/-! ## Limit order books -/

section LimitBooks

open LimitOrderbook

/-- A derivative limit order book in the loop. -/
def limitOps (E : MatchEnv R D) : BookOps R D (LimitOrderbook D) where
  peek x b c := b.peek E x c
  fill b c q := b.fill E c q
  counters b := b.counters

variable {isBuy : Bool}

theorem limitOps_priceOrdered (E : MatchEnv R D) (side : SideOrders D isBuy) :
    (limitOps E).PriceOrdered (LimitOrderbook.Inv side) (NoBetter side.Sorted isBuy)
      LimitOrderbook.view :=
  ⟨NoBetter.refl isBuy, fun _ _ _ => NoBetter.trans, fun i => sideSpec E side i⟩

/-- The quantity a book has filled for each subaccount. -/
def limitFills (b : LimitOrderbook D) : Hash → D :=
  exposures (b.entries.map (fun e => (e.order.orderInfo.subaccountID, e.fillQuantity)))

variable {b : LimitOrderbook D}

theorem limitFills_kept {b' : LimitOrderbook D} (h : Kept b b') : limitFills b' = limitFills b := by
  have hmap := congrArg (fun l => exposures (List.map
    (fun p : DerivativeLimitOrder D × D => (p.1.orderInfo.subaccountID, p.2)) l)) h.fills
  simp only [List.map_map] at hmap
  exact hmap

theorem limitFills_fill {l : Lane} {e : BookFill D} (hl : b.currState = some l)
    (hc : b.queue.current l = some e) (E : MatchEnv R D) (c : MatchState R D) (q : D) :
    limitFills (b.fill E c q).1 = limitFills b + Pi.single e.order.orderInfo.subaccountID q := by
  obtain ⟨pre, post, hent, hent'⟩ := fill_entries hl hc E c q
  simp only [limitFills, hent, hent', List.map_append, List.map_cons, exposures_append,
    exposures_cons, BookFill.add, Pi.single_add]
  abel

theorem limitOps_positionSpec (E : MatchEnv R D) (side : SideOrders D isBuy) :
    PositionSpec E (limitOps E) isBuy (LimitOrderbook.Inv side) limitFills
      (fun b c a => LimitOrderbook.view.current b a ∧
        ∃ l e, b.currState = some l ∧ b.queue.current l = some e ∧
          (c.positionCache e.order.orderInfo.subaccountID).isSome) where
  peek_inv _ _ _ h := (peek_spec h).inv
  peek_state _ _ _ h := (peek_spec h).state
  peek_fills _ _ _ h := limitFills_kept (peek_spec h).kept
  peek_openInterest _ _ _ h := (peek_spec h).kept.openInterest
  peek_ready x b c a h ha := by
    obtain ⟨hcurrent, hq, -⟩ := (sideSpec E side (x, c)).peek_some b a h ha
    obtain ⟨l, e, offer, -⟩ := (peek_spec h).some a ha
    exact ⟨⟨hcurrent, l, e, offer.state, offer.current, offer.cached⟩, hq⟩
  ready_mono b c c' a := by
    rintro ⟨hcurrent, l, e, hl, hc, hcached⟩ hkeeps
    exact ⟨hcurrent, l, e, hl, hc, hkeeps _ hcached⟩
  fill_inv b c a q h hready hq hle := (sideSpec E side (0, c)).fill_inv b a q h hready.1 hq hle
  fill_state b c a q h hv hready hq hle := by
    obtain ⟨-, l, e, hl, hc, hcached⟩ := hready
    exact ⟨e.order.orderInfo.subaccountID, limitFills_fill hl hc E c q,
      fill_filled h hl hc hv hcached hq.le E⟩

theorem net_limitFills {side : SideOrders D isBuy} (h : LimitOrderbook.Inv side b) :
    net (limitFills b) = b.totalQuantity := by
  rw [limitFills, net_exposures, h.total, List.map_map]
  rfl

theorem limitFills_book (side : SideOrders D isBuy) (isLiquidation : Bool) :
    limitFills (side.book isLiquidation) = 0 := by
  refine List.sum_eq_zero ?_
  intro x hx
  rw [side.entries_book, List.map_map, List.map_map] at hx
  obtain ⟨o, -, rfl⟩ := List.mem_map.mp hx
  exact Pi.single_zero _

theorem newLimitOrderbook_some {isLiquidation : Bool} (side : SideOrders D isBuy)
    (h : LimitOrderbook.newLimitOrderbook side.resting side.transient isBuy isLiquidation =
      some b) : b = side.book isLiquidation := by
  rw [LimitOrderbook.newLimitOrderbook] at h
  split at h
  · exact nomatch h
  exact (Option.some.inj h).symm

end LimitBooks

end ExchangeLinkedBooks
