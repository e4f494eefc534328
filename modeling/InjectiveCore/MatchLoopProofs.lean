import Mathlib

/-!
# A matching loop over two sides

Two sides of a market sit on one state. The loop peeks the first side, peeks the
second side, stops when one of them has nothing left or their prices do not cross,
and otherwise fills both with the smaller of the two quantities.

Nothing is assumed about the sides beyond what a proof asks for:

- `run_invariant` and `run_terminates` are the induction rules of the loop: an
  invariant of the trades made so far and the state, and a measure that every trade
  decreases.
- `SideSpec` says what a price-ordered side does to the prices of its open and of its
  filled orders. From it alone, `run_spec` bounds every filled price by the last
  matched one, and says that nothing that crosses is left over; `run_finishes` gives
  termination.
-/

namespace MatchLoop

/-- A quantity on offer at a price. -/
structure PriceLevel (D : Type) where
  price : D
  quantity : D
  deriving DecidableEq, Repr

/-- One iteration that filled both sides. -/
structure Trade (D : Type) where
  firstPrice : D
  secondPrice : D
  quantity : D
  deriving DecidableEq, Repr

/-- The two sides: how each is peeked and filled, and which prices cross. -/
structure Sides (σ D : Type) where
  peekFirst : σ → Option (PriceLevel D) × σ
  peekSecond : σ → Option (PriceLevel D) × σ
  fillFirst : σ → D → σ
  fillSecond : σ → D → σ
  crosses : D → D → Bool

variable {σ D : Type} [LinearOrder D] [AddCommMonoid D]

namespace Sides

/-- Both sides are peeked; a trade is proposed if both have an order left, the prices
    cross and there is something to fill. -/
def propose (M : Sides σ D) (s : σ) : Option (Trade D) × σ :=
  let s₁ := (M.peekFirst s).2
  let s₂ := (M.peekSecond s₁).2
  match (M.peekFirst s).1, (M.peekSecond s₁).1 with
  | some a, some b =>
    if M.crosses a.price b.price ∧ min a.quantity b.quantity ≠ 0 then
      (some ⟨a.price, b.price, min a.quantity b.quantity⟩, s₂)
    else (none, s₂)
  | _, _ => (none, s₂)

/-- One iteration: a proposed trade is filled on both sides. -/
def step (M : Sides σ D) (s : σ) : Option (Trade D) × σ :=
  match M.propose s with
  | (some t, s₂) => (some t, M.fillSecond (M.fillFirst s₂ t.quantity) t.quantity)
  | (none, s₂) => (none, s₂)

/-- The loop, with the trades it made; `none` when the fuel runs out. -/
def run (M : Sides σ D) : ℕ → σ → Option (List (Trade D) × σ)
  | 0, _ => none
  | n + 1, s =>
    match M.step s with
    | (some t, s') => (M.run n s').map (fun r => (t :: r.1, r.2))
    | (none, s') => some ([], s')

/-- The trades of the loop. -/
def trades (M : Sides σ D) (n : ℕ) (s : σ) : List (Trade D) := ((M.run n s).map Prod.fst).getD []

theorem trades_eq {M : Sides σ D} {n : ℕ} {s s' : σ} {ts : List (Trade D)}
    (h : M.run n s = some (ts, s')) : M.trades n s = ts := by
  rw [trades, h]
  rfl

/-- The states the loop passes through, one after every single fill. -/
def fillStates (M : Sides σ D) : ℕ → σ → List σ
  | 0, _ => []
  | n + 1, s =>
    match M.propose s with
    | (some t, s₂) =>
      let s₃ := M.fillFirst s₂ t.quantity
      let s₄ := M.fillSecond s₃ t.quantity
      s₃ :: s₄ :: M.fillStates n s₄
    | (none, _) => []

variable {M : Sides σ D} {s s' : σ} {t : Trade D}

theorem propose_some (h : M.propose s = (some t, s')) :
    ∃ a b, (M.peekFirst s).1 = some a ∧ (M.peekSecond (M.peekFirst s).2).1 = some b ∧
      M.crosses a.price b.price = true ∧ t = ⟨a.price, b.price, min a.quantity b.quantity⟩ ∧
      s' = (M.peekSecond (M.peekFirst s).2).2 := by
  simp only [propose] at h
  split at h
  · rename_i a b ha hb
    split at h
    · rename_i hc
      cases h
      exact ⟨a, b, ha, hb, hc.1, rfl, rfl⟩
    · cases h
  · cases h

theorem propose_none (h : M.propose s = (none, s')) :
    s' = (M.peekSecond (M.peekFirst s).2).2 ∧
      ((M.peekFirst s).1 = none ∨ (M.peekSecond (M.peekFirst s).2).1 = none ∨
        ∃ a b, (M.peekFirst s).1 = some a ∧ (M.peekSecond (M.peekFirst s).2).1 = some b ∧
          ¬(M.crosses a.price b.price = true ∧ min a.quantity b.quantity ≠ 0)) := by
  simp only [propose] at h
  split at h
  · rename_i a b ha hb
    split at h
    · cases h
    · rename_i hc
      cases h
      exact ⟨rfl, Or.inr (Or.inr ⟨a, b, ha, hb, hc⟩)⟩
  · rename_i hnone
    cases h
    refine ⟨rfl, ?_⟩
    cases ha : (M.peekFirst s).1 with
    | none => exact Or.inl rfl
    | some a =>
      cases hb : (M.peekSecond (M.peekFirst s).2).1 with
      | none => exact Or.inr (Or.inl rfl)
      | some b => exact absurd hb (hnone a b ha)

theorem step_some (h : M.step s = (some t, s')) :
    ∃ s₂, M.propose s = (some t, s₂) ∧
      s' = M.fillSecond (M.fillFirst s₂ t.quantity) t.quantity := by
  obtain ⟨trade, s₂, hp⟩ : ∃ trade s₂, M.propose s = (trade, s₂) := ⟨_, _, rfl⟩
  simp only [step, hp] at h
  cases trade with
  | none => exact absurd h (by simp)
  | some t' =>
    simp only [Prod.mk.injEq, Option.some.injEq] at h
    obtain ⟨rfl, rfl⟩ := h
    exact ⟨s₂, hp, rfl⟩

theorem step_none (h : M.step s = (none, s')) : M.propose s = (none, s') := by
  obtain ⟨trade, s₂, hp⟩ : ∃ trade s₂, M.propose s = (trade, s₂) := ⟨_, _, rfl⟩
  simp only [step, hp] at h
  cases trade with
  | none =>
    simp only [Prod.mk.injEq, true_and] at h
    rw [hp, h]
  | some t' => exact absurd h (by simp)

/-! ## Induction rules -/

private theorem run_invariant_from {I : List (Trade D) → σ → Prop}
    (hstep : ∀ ts s t s', I ts s → M.step s = (some t, s') → I (ts ++ [t]) s') (n : ℕ)
    (done : List (Trade D)) {ts : List (Trade D)} (h : M.run n s = some (ts, s'))
    (h₀ : I done s) : ∃ s₀, I (done ++ ts) s₀ ∧ M.step s₀ = (none, s') := by
  induction n generalizing done s ts with
  | zero => exact nomatch h
  | succ n ih =>
    obtain ⟨trade, s₁, hs⟩ : ∃ trade s₁, M.step s = (trade, s₁) := ⟨_, _, rfl⟩
    simp only [run, hs] at h
    cases trade with
    | none =>
      simp only [Option.some.injEq, Prod.mk.injEq] at h
      obtain ⟨rfl, rfl⟩ := h
      exact ⟨s, by rw [List.append_nil]; exact h₀, hs⟩
    | some t =>
      simp only [Option.map_eq_some_iff, Prod.mk.injEq] at h
      obtain ⟨⟨rest, s₂⟩, hrun, rfl, rfl⟩ := h
      obtain ⟨s₀, hI, hend⟩ := ih (done ++ [t]) hrun (hstep done s t s₁ h₀ hs)
      refine ⟨s₀, ?_, hend⟩
      show I (done ++ t :: rest) s₀
      rw [List.append_cons]
      exact hI

/-- **INVARIANT**: what holds of no trades and the first state, and is kept by every
    trade, holds of all trades and the last state, which proposes no other. -/
theorem run_invariant {I : List (Trade D) → σ → Prop}
    (hstep : ∀ ts s t s', I ts s → M.step s = (some t, s') → I (ts ++ [t]) s') {n : ℕ}
    {ts : List (Trade D)} (h : M.run n s = some (ts, s')) (h₀ : I [] s) :
    ∃ s₀, I ts s₀ ∧ M.step s₀ = (none, s') :=
  run_invariant_from hstep n [] h h₀

/-- **TERMINATION**: a measure that every trade decreases bounds the loop. -/
theorem run_terminates {I : σ → Prop} {μ : σ → ℕ}
    (hstep : ∀ s t s', I s → M.step s = (some t, s') → I s' ∧ μ s' < μ s) {n : ℕ} (h₀ : I s)
    (hn : μ s < n) : ∃ r, M.run n s = some r := by
  induction n generalizing s with
  | zero => exact absurd hn (Nat.not_lt_zero _)
  | succ n ih =>
    obtain ⟨trade, s₁, hs⟩ : ∃ trade s₁, M.step s = (trade, s₁) := ⟨_, _, rfl⟩
    simp only [run, hs]
    cases trade with
    | none => exact ⟨_, rfl⟩
    | some t =>
      obtain ⟨hI, hlt⟩ := hstep s t s₁ h₀ hs
      obtain ⟨r, hr⟩ := ih hI (by omega)
      exact ⟨(t :: r.1, r.2), by simp only [hr, Option.map_some]⟩

/-- A state predicate kept by both peeks and by both fills of every proposed trade
    holds after every single fill. -/
theorem fillStates_invariant {I J : σ → Prop}
    (hpropose : ∀ s t s₂, I s → M.propose s = (some t, s₂) →
      J (M.fillFirst s₂ t.quantity) ∧
        J (M.fillSecond (M.fillFirst s₂ t.quantity) t.quantity) ∧
        I (M.fillSecond (M.fillFirst s₂ t.quantity) t.quantity)) (n : ℕ) (h₀ : I s) :
    ∀ s' ∈ M.fillStates n s, J s' := by
  induction n generalizing s with
  | zero => exact List.forall_mem_nil _
  | succ n ih =>
    obtain ⟨trade, s₂, hp⟩ : ∃ trade s₂, M.propose s = (trade, s₂) := ⟨_, _, rfl⟩
    simp only [fillStates, hp]
    cases trade with
    | none => exact List.forall_mem_nil _
    | some t =>
      obtain ⟨h₁, h₂, hI⟩ := hpropose s t s₂ h₀ hp
      exact List.forall_mem_cons.mpr ⟨h₁, List.forall_mem_cons.mpr ⟨h₂, ih hI⟩⟩

end Sides

/-! ## Price-ordered sides -/

/-- What can be seen of a side: the prices of the orders still open, the prices of the
    orders that have a fill, the total quantity filled, and the level it offers. -/
structure View (σ D : Type) where
  live : σ → List D
  filled : σ → List D
  total : σ → D
  current : σ → PriceLevel D → Prop

section Replace

variable {E Y : Type} {price : E → Y} {P : E → Prop} [DecidablePred P] {post : List E}
  {c c' : E} (pre : List E)

omit [DecidablePred P] in
theorem mem_replace {x : E} (h : x ∈ pre ++ c' :: post) : x = c' ∨ x ∈ pre ++ c :: post := by
  simp only [List.mem_append, List.mem_cons] at h ⊢
  tauto

omit [DecidablePred P] in
theorem forall_mem_replace (h : ∀ x ∈ pre ++ c :: post, P x) (hc' : P c') :
    ∀ x ∈ pre ++ c' :: post, P x := by
  intro x hx
  rcases mem_replace pre hx with rfl | hold
  · exact hc'
  · exact h x hold

theorem sum_map_replace {W : Type} [AddCommMonoid W] {w : E → W} {d : W}
    (h : w c' = w c + d) :
    ((pre ++ c' :: post).map w).sum = ((pre ++ c :: post).map w).sum + d := by
  simp only [List.map_append, List.map_cons, List.sum_append, List.sum_cons, h]
  abel

/-- An entry replaced by one of the same price adds at most this price. -/
theorem prices_replace_subset (hprice : price c' = price c) :
    ((pre ++ c' :: post).filter P).map price ⊆
      price c :: ((pre ++ c :: post).filter P).map price := by
  intro p hp
  obtain ⟨e, he, rfl⟩ := List.mem_map.mp hp
  obtain ⟨hmem, hP⟩ := List.mem_filter.mp he
  rcases mem_replace pre hmem with rfl | hold
  · exact hprice ▸ List.mem_cons_self
  · exact List.mem_cons_of_mem _ (List.mem_map_of_mem (List.mem_filter.mpr ⟨hold, hP⟩))

/-- An entry that counted, replaced by one of the same price, keeps its place or leaves. -/
theorem prices_replace_sublist (hprice : price c' = price c) (hc : P c) :
    (((pre ++ c' :: post).filter P).map price).Sublist
      (((pre ++ c :: post).filter P).map price) := by
  simp only [List.filter_append, List.filter_cons, hc, decide_true, if_true, List.map_append,
    List.map_cons]
  refine (List.Sublist.refl _).append ?_
  split
  · rw [List.map_cons, hprice]
  · exact List.sublist_cons_self _ _

theorem length_prices_replace_lt (hc : P c) (hc' : ¬P c') :
    (((pre ++ c' :: post).filter P).map price).length <
      (((pre ++ c :: post).filter P).map price).length := by
  simp only [List.filter_append, List.filter_cons, hc, hc', decide_true, decide_false, if_true,
    Bool.false_eq_true, if_false, List.map_append, List.map_cons, List.length_append,
    List.length_cons]
  omega

end Replace

/-- A side looks the same in two states. -/
structure View.Same (V : View σ D) (s s' : σ) : Prop where
  live : V.live s' = V.live s
  filled : V.filled s' = V.filled s
  total : V.total s' = V.total s
  current : ∀ a, V.current s a → V.current s' a

/-- What peeking and filling a price-ordered side do. `noBetter p p'` says that the price
    `p` is no better than `p'` on this side. -/
structure SideSpec (Inv : σ → Prop) (noBetter : D → D → Prop)
    (peek : σ → Option (PriceLevel D) × σ) (fill : σ → D → σ) (own other : View σ D) :
    Prop where
  refl : ∀ p, noBetter p p
  trans : ∀ p p' p'', noBetter p p' → noBetter p' p'' → noBetter p p''
  peek_inv : ∀ s, Inv s → Inv (peek s).2
  peek_other : ∀ s, Inv s → other.Same s (peek s).2
  peek_live : ∀ s, Inv s → (own.live (peek s).2).Sublist (own.live s)
  peek_filled : ∀ s, Inv s → own.filled (peek s).2 ⊆ own.filled s
  peek_total : ∀ s, Inv s → own.total (peek s).2 = own.total s
  peek_none : ∀ s, Inv s → (peek s).1 = none → own.live (peek s).2 = []
  peek_some : ∀ s a, Inv s → (peek s).1 = some a →
    own.current (peek s).2 a ∧ 0 < a.quantity ∧ a.price ∈ own.live (peek s).2 ∧
      ∀ p ∈ own.live (peek s).2, noBetter p a.price
  fill_inv : ∀ s a q, Inv s → own.current s a → 0 < q → q ≤ a.quantity → Inv (fill s q)
  fill_other : ∀ s a q, Inv s → own.current s a → 0 < q → q ≤ a.quantity →
    other.Same s (fill s q)
  fill_live : ∀ s a q, Inv s → own.current s a → 0 < q → q ≤ a.quantity →
    (own.live (fill s q)).Sublist (own.live s)
  fill_done : ∀ s a q, Inv s → own.current s a → 0 < q → q = a.quantity →
    (own.live (fill s q)).length < (own.live s).length
  fill_filled : ∀ s a q, Inv s → own.current s a → 0 < q → q ≤ a.quantity →
    own.filled (fill s q) ⊆ a.price :: own.filled s
  fill_total : ∀ s a q, Inv s → own.current s a → 0 < q → q ≤ a.quantity →
    own.total (fill s q) = own.total s + q

variable {noBetter : D → D → Prop}

theorem SideSpec.strengthen {Inv : σ → Prop} {peek : σ → Option (PriceLevel D) × σ}
    {fill : σ → D → σ} {own other : View σ D} (h : SideSpec Inv noBetter peek fill own other)
    {J : σ → Prop} (hpeek : ∀ s, Inv s → J s → J (peek s).2)
    (hfill : ∀ s a q, Inv s → J s → own.current s a → 0 < q → q ≤ a.quantity → J (fill s q)) :
    SideSpec (fun s => Inv s ∧ J s) noBetter peek fill own other where
  refl := h.refl
  trans := h.trans
  peek_inv s hI := ⟨h.peek_inv s hI.1, hpeek s hI.1 hI.2⟩
  peek_other s hI := h.peek_other s hI.1
  peek_live s hI := h.peek_live s hI.1
  peek_filled s hI := h.peek_filled s hI.1
  peek_total s hI := h.peek_total s hI.1
  peek_none s hI := h.peek_none s hI.1
  peek_some s a hI := h.peek_some s a hI.1
  fill_inv s a q hI hc h0 hq := ⟨h.fill_inv s a q hI.1 hc h0 hq, hfill s a q hI.1 hI.2 hc h0 hq⟩
  fill_other s a q hI := h.fill_other s a q hI.1
  fill_live s a q hI := h.fill_live s a q hI.1
  fill_done s a q hI := h.fill_done s a q hI.1
  fill_filled s a q hI := h.fill_filled s a q hI.1
  fill_total s a q hI := h.fill_total s a q hI.1

/-- What the matched prices of a side say of it: they are prices it was offered at the start,
    every filled order has one of them, they come in the order of the side, and no open order
    is better than the last. -/
structure Separates (noBetter : D → D → Prop) (V : View σ D) (start : List D) (s : σ)
    (prices : List D) : Prop where
  offered : prices ⊆ start
  stillOffered : V.live s ⊆ start
  filled : V.filled s ⊆ prices
  inOrder : prices.Pairwise (fun p p' => noBetter p' p)
  live : ∀ last ∈ prices.getLast?, ∀ x ∈ V.live s, noBetter x last

variable {V : View σ D} {s s' : σ} {start prices : List D}

/-- A side has lost open orders at most. -/
structure View.Shrinks (V : View σ D) (s s' : σ) : Prop where
  live : (V.live s').Sublist (V.live s)
  filled : V.filled s' ⊆ V.filled s
  total : V.total s' = V.total s

omit [LinearOrder D] [AddCommMonoid D] in
theorem View.Same.shrinks (h : V.Same s s') : V.Shrinks s s' :=
  ⟨h.live ▸ List.Sublist.refl _, h.filled ▸ List.Subset.refl _, h.total⟩

omit [LinearOrder D] [AddCommMonoid D] in
theorem View.Shrinks.trans {s'' : σ} (h : V.Shrinks s s') (h' : V.Shrinks s' s'') :
    V.Shrinks s s'' :=
  ⟨h'.live.trans h.live, List.Subset.trans h'.filled h.filled, h'.total.trans h.total⟩

omit [LinearOrder D] [AddCommMonoid D] in
theorem Separates.shrink (h : Separates noBetter V start s prices) (hs : V.Shrinks s s') :
    Separates noBetter V start s' prices :=
  ⟨h.offered, fun _ hx => h.stillOffered (hs.live.subset hx),
    fun _ hx => h.filled (hs.filled hx), h.inOrder,
    fun last hlast x hx => h.live last hlast x (hs.live.subset hx)⟩

omit [LinearOrder D] [AddCommMonoid D] in
/-- The last of a list of prices in order is no better than any of them. -/
theorem last_noBetter (hrefl : ∀ p, noBetter p p)
    (h : prices.Pairwise (fun p p' => noBetter p' p)) {last : D} (hlast : last ∈ prices.getLast?) :
    ∀ p ∈ prices, noBetter last p := by
  obtain ⟨init, rfl⟩ := List.getLast?_eq_some_iff.mp hlast
  intro p hp
  rcases List.mem_append.mp hp with hp | hp
  · exact (List.pairwise_append.mp h).2.2 p hp last (List.mem_singleton_self last)
  · rw [List.mem_singleton.mp hp]
    exact hrefl last

omit [LinearOrder D] [AddCommMonoid D] in
/-- A fill of the best open order appends its price. -/
theorem Separates.fill (hrefl : ∀ p, noBetter p p)
    (htrans : ∀ p p' p'', noBetter p p' → noBetter p' p'' → noBetter p p'') {price : D}
    (h : Separates noBetter V start s prices) (hmem : price ∈ V.live s)
    (hbest : ∀ x ∈ V.live s, noBetter x price) (hl : V.live s' ⊆ V.live s)
    (hf : V.filled s' ⊆ price :: V.filled s) :
    Separates noBetter V start s' (prices ++ [price]) := by
  refine ⟨List.append_subset.mpr ⟨h.offered, ?_⟩, List.Subset.trans hl h.stillOffered, ?_, List.pairwise_append.mpr ⟨h.inOrder, List.pairwise_singleton _ _, ?_⟩, ?_⟩
  · intro x hx
    exact h.stillOffered (List.mem_singleton.mp hx ▸ hmem)
  · intro x hx
    rcases List.mem_cons.mp (hf hx) with rfl | hx
    · exact List.mem_append_right _ List.mem_cons_self
    · exact List.mem_append_left _ (h.filled hx)
  · -- the order was open before, so it is no better than the last price, nor than any
    intro p hp p' hp'
    obtain rfl := List.mem_singleton.mp hp'
    obtain ⟨last, hlast⟩ := Option.isSome_iff_exists.mp
      (List.getLast?_isSome.mpr (List.ne_nil_of_mem hp))
    exact htrans _ last _ (h.live last hlast _ hmem) (last_noBetter hrefl h.inOrder hlast p hp)
  · intro last hlast x hx
    rw [List.getLast?_append, List.getLast?_singleton, Option.some_or, Option.mem_some] at hlast
    exact hlast ▸ hbest x (hl hx)

section TwoSides

variable {M : Sides σ D} {Inv : σ → Prop} {noBetter₁ noBetter₂ : D → D → Prop}
  {first second : View σ D}

variable {s : σ} (h₁ : SideSpec Inv noBetter₁ M.peekFirst M.fillFirst first second)
  (h₂ : SideSpec Inv noBetter₂ M.peekSecond M.fillSecond second first)
include h₁ h₂

theorem peeks_spec (hI : Inv s) :
    Inv (M.peekSecond (M.peekFirst s).2).2 ∧
      first.Shrinks s (M.peekSecond (M.peekFirst s).2).2 ∧
      second.Shrinks s (M.peekSecond (M.peekFirst s).2).2 := by
  have hI₁ := h₁.peek_inv s hI
  have hown₁ : first.Shrinks s (M.peekFirst s).2 :=
    ⟨h₁.peek_live s hI, h₁.peek_filled s hI, h₁.peek_total s hI⟩
  have hown₂ : second.Shrinks (M.peekFirst s).2 (M.peekSecond (M.peekFirst s).2).2 :=
    ⟨h₂.peek_live _ hI₁, h₂.peek_filled _ hI₁, h₂.peek_total _ hI₁⟩
  exact ⟨h₂.peek_inv _ hI₁, hown₁.trans (h₂.peek_other _ hI₁).shrinks,
    (h₁.peek_other s hI).shrinks.trans hown₂⟩

/-- **ONE TRADE** on two price-ordered sides: the invariant is kept, one side loses an
    open order, both totals grow by the traded quantity, and the matched prices separate
    their sides. -/
theorem step_spec {s' : σ} {t : Trade D} (hI : Inv s) (h : M.step s = (some t, s')) :
    Inv s' ∧ M.crosses t.firstPrice t.secondPrice = true ∧ 0 < t.quantity ∧
      first.total s' = first.total s + t.quantity ∧
      second.total s' = second.total s + t.quantity ∧
      (first.live s').length + (second.live s').length <
        (first.live s).length + (second.live s).length ∧
      (∀ start prices, Separates noBetter₁ first start s prices →
        Separates noBetter₁ first start s' (prices ++ [t.firstPrice])) ∧
      (∀ start prices, Separates noBetter₂ second start s prices →
        Separates noBetter₂ second start s' (prices ++ [t.secondPrice])) := by
  obtain ⟨s₂, hp, rfl⟩ := Sides.step_some h
  obtain ⟨a, b, ha, hb, hcross, rfl, rfl⟩ := Sides.propose_some hp
  obtain ⟨hI₂, hs₁, hs₂⟩ := peeks_spec h₁ h₂ hI
  have hI₁ := h₁.peek_inv s hI
  have hsame := h₂.peek_other _ hI₁
  obtain ⟨hca, hqa, hma, hba⟩ := h₁.peek_some s a hI ha
  obtain ⟨hcb, hqb, hmb, hbb⟩ := h₂.peek_some _ b hI₁ hb
  have hq := lt_min hqa hqb
  have hle₁ : min a.quantity b.quantity ≤ a.quantity := min_le_left _ _
  have hle₂ : min a.quantity b.quantity ≤ b.quantity := min_le_right _ _
  replace hca := hsame.current a hca
  rw [← hsame.live] at hma hba
  generalize (M.peekSecond (M.peekFirst s).2).2 = s₂ at *
  dsimp only
  generalize hqd : min a.quantity b.quantity = q at hq hle₁ hle₂
  -- the first fill, and what it leaves of the second side
  have hI₃ := h₁.fill_inv s₂ a q hI₂ hca hq hle₁
  have ho₃ := h₁.fill_other s₂ a q hI₂ hca hq hle₁
  have hl₃ := h₁.fill_live s₂ a q hI₂ hca hq hle₁
  have hf₃ := h₁.fill_filled s₂ a q hI₂ hca hq hle₁
  have hcb₃ := ho₃.current b hcb
  -- the second fill, and what it leaves of the first side
  have hI₄ := h₂.fill_inv _ b q hI₃ hcb₃ hq hle₂
  have ho₄ := h₂.fill_other _ b q hI₃ hcb₃ hq hle₂
  have hl₄ := h₂.fill_live _ b q hI₃ hcb₃ hq hle₂
  have hf₄ := h₂.fill_filled _ b q hI₃ hcb₃ hq hle₂
  rw [ho₃.live] at hl₄
  rw [ho₃.filled] at hf₄
  refine ⟨hI₄, hcross, hq, ?_, ?_, ?_, ?_, ?_⟩
  · rw [ho₄.total, h₁.fill_total s₂ a q hI₂ hca hq hle₁, hs₁.total]
  · rw [h₂.fill_total _ b q hI₃ hcb₃ hq hle₂, ho₃.total, hs₂.total]
  · have n₁ := hs₁.live.length_le
    have n₂ := hs₂.live.length_le
    have n₃ := hl₃.length_le
    have n₄ := hl₄.length_le
    rw [ho₄.live]
    -- the smaller quantity exhausts its order
    rcases min_choice a.quantity b.quantity with hmin | hmin
    · have hd := h₁.fill_done s₂ a q hI₂ hca hq (by rw [← hqd, hmin])
      omega
    · have hd := h₂.fill_done _ b q hI₃ hcb₃ hq (by rw [← hqd, hmin])
      rw [ho₃.live] at hd
      omega
  · intro start prices hsep
    exact (Separates.fill h₁.refl h₁.trans (hsep.shrink hs₁) hma hba hl₃.subset
      hf₃).shrink ho₄.shrinks
  · intro start prices hsep
    exact Separates.fill h₂.refl h₂.trans (hsep.shrink hs₂) hmb hbb hl₄.subset hf₄

/-- **TERMINATION** of the loop on two price-ordered sides: there are at most as many
    trades as open orders. -/
theorem run_finishes {n : ℕ} (hI : Inv s)
    (hn : (first.live s).length + (second.live s).length < n) : ∃ r, M.run n s = some r :=
  Sides.run_terminates (I := Inv)
    (μ := fun s => (first.live s).length + (second.live s).length)
    (fun _ _ _ hI h =>
      have hs := step_spec h₁ h₂ hI h
      ⟨hs.1, hs.2.2.2.2.2.1⟩) hI hn

/-- **THE LOOP** on two price-ordered sides: both sides fill the sum of the trades, the
    last matched prices cross and separate their sides, and at the end a side is
    exhausted or the best open prices do not cross. -/
theorem run_spec {n : ℕ} {s' : σ} {ts : List (Trade D)} (hI : Inv s)
    (hf₁ : first.filled s = []) (hf₂ : second.filled s = [])
    (h : M.run n s = some (ts, s')) :
    Inv s' ∧
      first.total s' = first.total s + (ts.map Trade.quantity).sum ∧
      second.total s' = second.total s + (ts.map Trade.quantity).sum ∧
      Separates noBetter₁ first (first.live s) s' (ts.map Trade.firstPrice) ∧
      Separates noBetter₂ second (second.live s) s' (ts.map Trade.secondPrice) ∧
      (∀ t ∈ ts, M.crosses t.firstPrice t.secondPrice = true ∧ 0 < t.quantity) ∧
      (first.live s' = [] ∨ second.live s' = [] ∨
        ∃ p p', M.crosses p p' = false ∧ (∀ x ∈ first.live s', noBetter₁ x p) ∧
          ∀ x ∈ second.live s', noBetter₂ x p') := by
  obtain ⟨s₀, ⟨hI₀, ht₁, ht₂, hs₁, hs₂, hcross⟩, hend⟩ := Sides.run_invariant
    (I := fun ts u => Inv u ∧
      first.total u = first.total s + (ts.map Trade.quantity).sum ∧
      second.total u = second.total s + (ts.map Trade.quantity).sum ∧
      Separates noBetter₁ first (first.live s) u (ts.map Trade.firstPrice) ∧
      Separates noBetter₂ second (second.live s) u (ts.map Trade.secondPrice) ∧
      ∀ t ∈ ts, M.crosses t.firstPrice t.secondPrice = true ∧ 0 < t.quantity)
    (by
      rintro ts u t u' ⟨hI, ht₁, ht₂, hs₁, hs₂, hc⟩ hstep
      obtain ⟨hI', hct, hq, k₁, k₂, -, m₁, m₂⟩ := step_spec h₁ h₂ hI hstep
      refine ⟨hI', ?_, ?_, ?_, ?_, ?_⟩
      · rw [k₁, ht₁, List.map_append, List.sum_append, List.map_singleton,
          List.sum_singleton, add_assoc]
      · rw [k₂, ht₂, List.map_append, List.sum_append, List.map_singleton,
          List.sum_singleton, add_assoc]
      · rw [List.map_append]; exact m₁ _ _ hs₁
      · rw [List.map_append]; exact m₂ _ _ hs₂
      · exact List.forall_mem_append.mpr ⟨hc, List.forall_mem_singleton.mpr ⟨hct, hq⟩⟩) h
    ⟨hI, (add_zero _).symm, (add_zero _).symm,
      ⟨List.nil_subset _, List.Subset.refl _, hf₁ ▸ List.Subset.refl _, .nil, nofun⟩,
      ⟨List.nil_subset _, List.Subset.refl _, hf₂ ▸ List.Subset.refl _, .nil, nofun⟩, nofun⟩
  -- the last two peeks move the state once more
  obtain ⟨rfl, hwhy⟩ := Sides.propose_none (Sides.step_none hend)
  obtain ⟨hI₂, hsh₁, hsh₂⟩ := peeks_spec h₁ h₂ hI₀
  have hI₁ := h₁.peek_inv s₀ hI₀
  have hlive := (h₂.peek_other _ hI₁).live
  refine ⟨hI₂, hsh₁.total.trans ht₁, hsh₂.total.trans ht₂, hs₁.shrink hsh₁, hs₂.shrink hsh₂,
    hcross, ?_⟩
  rw [hlive]
  rcases hwhy with hnone | hnone | ⟨a, b, ha, hb, hno⟩
  · exact Or.inl (h₁.peek_none s₀ hI₀ hnone)
  · exact Or.inr (Or.inl (h₂.peek_none _ hI₁ hnone))
  · obtain ⟨-, hqa, -, hba⟩ := h₁.peek_some s₀ a hI₀ ha
    obtain ⟨-, hqb, -, hbb⟩ := h₂.peek_some _ b hI₁ hb
    refine Or.inr (Or.inr ⟨a.price, b.price, ?_, hba, hbb⟩)
    by_contra hcr
    exact hno ⟨by simpa using hcr, (lt_min hqa hqb).ne'⟩

end TwoSides

/-! ## Books on a state -/

section Books

/-- What is seen of a part of the state, seen on the whole. -/
def View.comap {τ : Type} (V : View σ D) (f : τ → σ) : View τ D :=
  { live := fun s => V.live (f s), filled := fun s => V.filled (f s)
    total := fun s => V.total (f s), current := fun s => V.current (f s) }

omit [LinearOrder D] [AddCommMonoid D] in
theorem Separates.of_comap {τ : Type} {V : View σ D} {f : τ → σ} {s : τ} {start prices : List D}
    (h : Separates noBetter (V.comap f) start s prices) : Separates noBetter V start (f s) prices :=
  ⟨h.offered, h.stillOffered, h.filled, h.inOrder, h.live⟩

/-- Nothing to be seen: the other side of a book that stands alone. -/
def View.blank : View σ D :=
  { live := fun _ => [], filled := fun _ => [], total := fun _ => 0
    current := fun _ _ => False }

omit [LinearOrder D] in
theorem View.same_blank (s s' : σ) : (View.blank : View σ D).Same s s' :=
  ⟨rfl, rfl, rfl, fun _ h => h⟩

omit [LinearOrder D] [AddCommMonoid D] in
theorem View.same_comap {τ : Type} (V : View σ D) {f : τ → σ} {s s' : τ}
    (h : f s' = f s) : (V.comap f).Same s s' :=
  ⟨congrArg V.live h, congrArg V.filled h, congrArg V.total h,
    fun a hc => (congrArg (fun u => V.current u a) h).mpr hc⟩

variable {B₁ B₂ ι : Type}

/-- A book that is price-ordered by itself, whatever else of the state its peeks and
    fills read, is a side of the loop if they leave the other book alone. -/
theorem SideSpec.ofBook {own : σ → B₁} {other : σ → B₂} {I : σ → Prop}
    {Inv : B₁ → Prop} {noBetter : D → D → Prop}
    {bookPeek : ι → B₁ → Option (PriceLevel D) × B₁} {bookFill : ι → B₁ → D → B₁}
    {peek : σ → Option (PriceLevel D) × σ} {fill : σ → D → σ} {V O : View B₁ D}
    (rest : σ → ι) (W : View B₂ D) (hrefl : ∀ p, noBetter p p)
    (htrans : ∀ p p' p'', noBetter p p' → noBetter p' p'' → noBetter p p'')
    (h : ∀ i, SideSpec Inv noBetter (bookPeek i) (bookFill i) V O)
    (hI : ∀ s, I s → Inv (own s))
    (hkeep : ∀ s s', I s → Inv (own s') → other s' = other s → I s')
    (hpeek : ∀ s, bookPeek (rest s) (own s) = ((peek s).1, own (peek s).2))
    (hfill : ∀ s q, bookFill (rest s) (own s) q = own (fill s q))
    (hpeek_other : ∀ s, other (peek s).2 = other s)
    (hfill_other : ∀ s q, other (fill s q) = other s) :
    SideSpec I noBetter peek fill (V.comap own) (W.comap other) where
  refl := hrefl
  trans := htrans
  peek_inv s hs := by
    have hinv := (h (rest s)).peek_inv (own s) (hI s hs)
    rw [hpeek] at hinv
    exact hkeep s _ hs hinv (hpeek_other s)
  peek_other s _ := W.same_comap (hpeek_other s)
  peek_live s hs := by
    have hlive := (h (rest s)).peek_live (own s) (hI s hs)
    rwa [hpeek] at hlive
  peek_filled s hs := by
    have hfilled := (h (rest s)).peek_filled (own s) (hI s hs)
    rwa [hpeek] at hfilled
  peek_total s hs := by
    have htotal := (h (rest s)).peek_total (own s) (hI s hs)
    rwa [hpeek] at htotal
  peek_none s hs := by
    have hnone := (h (rest s)).peek_none (own s) (hI s hs)
    rwa [hpeek] at hnone
  peek_some s a hs := by
    have hsome := (h (rest s)).peek_some (own s) a (hI s hs)
    rwa [hpeek] at hsome
  fill_inv s a q hs hc h0 hq := by
    have hinv := (h (rest s)).fill_inv (own s) a q (hI s hs) hc h0 hq
    rw [hfill] at hinv
    exact hkeep s _ hs hinv (hfill_other s q)
  fill_other s _ q _ _ _ _ := W.same_comap (hfill_other s q)
  fill_live s a q hs := by
    have hlive := (h (rest s)).fill_live (own s) a q (hI s hs)
    rwa [hfill] at hlive
  fill_done s a q hs := by
    have hdone := (h (rest s)).fill_done (own s) a q (hI s hs)
    rwa [hfill] at hdone
  fill_filled s a q hs := by
    have hfilled := (h (rest s)).fill_filled (own s) a q (hI s hs)
    rwa [hfill] at hfilled
  fill_total s a q hs := by
    have htotal := (h (rest s)).fill_total (own s) a q (hI s hs)
    rwa [hfill] at htotal

/-- Two books that share nothing. -/
def Sides.pair (peek₁ : B₁ → Option (PriceLevel D) × B₁) (fill₁ : B₁ → D → B₁)
    (peek₂ : B₂ → Option (PriceLevel D) × B₂) (fill₂ : B₂ → D → B₂)
    (crosses : D → D → Bool) : Sides (B₁ × B₂) D :=
  { peekFirst := fun s => ((peek₁ s.1).1, ((peek₁ s.1).2, s.2))
    peekSecond := fun s => ((peek₂ s.2).1, (s.1, (peek₂ s.2).2))
    fillFirst := fun s q => (fill₁ s.1 q, s.2)
    fillSecond := fun s q => (s.1, fill₂ s.2 q)
    crosses := crosses }

/-- Two books that are price-ordered by themselves are the two sides of a loop. -/
theorem SideSpec.pair {peek₁ : B₁ → Option (PriceLevel D) × B₁} {fill₁ : B₁ → D → B₁}
    {peek₂ : B₂ → Option (PriceLevel D) × B₂} {fill₂ : B₂ → D → B₂}
    {noBetter₁ noBetter₂ : D → D → Prop} {Inv₁ : B₁ → Prop} {Inv₂ : B₂ → Prop}
    {V₁ O₁ : View B₁ D} {V₂ O₂ : View B₂ D} (crosses : D → D → Bool)
    (h₁ : SideSpec Inv₁ noBetter₁ peek₁ fill₁ V₁ O₁)
    (h₂ : SideSpec Inv₂ noBetter₂ peek₂ fill₂ V₂ O₂) :
    SideSpec (fun s : B₁ × B₂ => Inv₁ s.1 ∧ Inv₂ s.2) noBetter₁
        (Sides.pair peek₁ fill₁ peek₂ fill₂ crosses).peekFirst
        (Sides.pair peek₁ fill₁ peek₂ fill₂ crosses).fillFirst
        (V₁.comap Prod.fst) (V₂.comap Prod.snd) ∧
      SideSpec (fun s : B₁ × B₂ => Inv₁ s.1 ∧ Inv₂ s.2) noBetter₂
        (Sides.pair peek₁ fill₁ peek₂ fill₂ crosses).peekSecond
        (Sides.pair peek₁ fill₁ peek₂ fill₂ crosses).fillSecond
        (V₂.comap Prod.snd) (V₁.comap Prod.fst) := by
  constructor
  · refine SideSpec.ofBook (fun _ => ()) V₂ h₁.refl h₁.trans (fun _ => h₁)
      (fun s hs => hs.1) ?_ (fun _ => rfl) (fun _ _ => rfl) (fun _ => rfl) (fun _ _ => rfl)
    intro s s' hs hinv hother
    exact ⟨hinv, hother ▸ hs.2⟩
  · refine SideSpec.ofBook (fun _ => ()) V₁ h₂.refl h₂.trans (fun _ => h₂)
      (fun s hs => hs.2) ?_ (fun _ => rfl) (fun _ _ => rfl) (fun _ => rfl) (fun _ _ => rfl)
    intro s s' hs hinv hother
    exact ⟨hother ▸ hs.1, hinv⟩

end Books

end MatchLoop
