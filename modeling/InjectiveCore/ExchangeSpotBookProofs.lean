import InjectiveCore.ExchangeFbaProofs
import InjectiveCore.ExchangeSpotFillProofs

/-!
# Spot order books

A limit order book merges the resting orders of the store with the transient orders of
the block and hands out the best of them, one at a time. Orders of a subaccount under
emergency pause are passed over: they stay where they are and take no part.

`Inv` is what a book keeps through every `peek` and every `fill`: cursors have only
passed orders that are done or paused, no order is filled beyond its fillable quantity,
an order has a fill only if every better one is full, and the running total is the sum
of the fills. `sideSpec` is the interface to the matching loop, and
`spot_fba_match_correct` puts the two together for the auction.
-/

namespace ExchangeSpotBook

open DecArith MatchLoop TwoQueue ExchangeFees ExchangeFba ExchangeSpotFill

variable {D : Type} [DecArith D]

/-- An order of `OrderbookFills` with its fill quantity. -/
structure SpotFill (D : Type) where
  order : SpotLimitOrder D
  fillQuantity : D
  deriving DecidableEq, Repr

/-- The order with more of it filled. -/
def SpotFill.add (e : SpotFill D) (fillQuantity : D) : SpotFill D :=
  { e with fillQuantity := e.fillQuantity + fillQuantity }

@[simp] theorem SpotFill.add_order (e : SpotFill D) (q : D) : (e.add q).order = e.order := rfl

/-- How the book reads its orders; `isPaused` is `CheckCrossMarginEmergencyPause`. -/
@[simps] def reader (isPaused : Hash → Bool) :
    Reader (SpotLimitOrder D) (SpotFill D) D where
  load o := ⟨o, 0⟩
  remaining e := e.order.fillable - e.fillQuantity
  price e := e.order.orderInfo.price
  skip e := isPaused e.order.orderInfo.subaccountID

/-- `SpotLimitOrderbook`. The queue holds the resting fills with the store iterator and
    the transient fills split at `transientOrderIdx`; `currState` is the lane of the
    current order. -/
structure SpotLimitOrderbook (D : Type) where
  isBuy : Bool
  notional : D
  totalQuantity : D
  queue : Queue (SpotLimitOrder D) (SpotFill D)
  currState : Option Lane
  deriving DecidableEq, Repr

namespace SpotLimitOrderbook

/-- A book before matching. -/
def initial (resting transient : List (SpotLimitOrder D)) (isBuy : Bool) :
    SpotLimitOrderbook D :=
  { isBuy := isBuy
    notional := 0
    totalQuantity := 0
    queue := { fetched := [], iterator := resting, passed := []
               pending := transient.map (fun o => ⟨o, 0⟩) }
    currState := none }

/-- `NewSpotLimitOrderbook`: nil without orders. -/
def newSpotLimitOrderbook (resting transient : List (SpotLimitOrder D)) (isBuy : Bool) :
    Option (SpotLimitOrderbook D) :=
  if transient.isEmpty && resting.isEmpty then none
  else some (initial resting transient isBuy)

/-- `GetTransientOrderbookFills`. -/
def getTransientOrderbookFills (b : SpotLimitOrderbook D) : List (SpotFill D) :=
  b.queue.passed ++ b.queue.pending

/-- `GetRestingOrderbookFills`. -/
def getRestingOrderbookFills (b : SpotLimitOrderbook D) : List (SpotFill D) :=
  b.queue.fetched.reverse

/-- `advanceNewOrder`: nothing to do while there is a current order. -/
def advanceNewOrder (isPaused : Hash → Bool) (b : SpotLimitOrderbook D) :
    SpotLimitOrderbook D :=
  match b.currState with
  | some _ => b
  | none =>
    { b with queue := (b.queue.select (reader isPaused) b.isBuy).2
             currState := (b.queue.select (reader isPaused) b.isBuy).1 }

/-- The current order. -/
def currOrder (b : SpotLimitOrderbook D) : Option (SpotFill D) :=
  b.currState.bind b.queue.current

/-- `Peek` with a bound on its recursion, which skips current orders that have nothing
    remaining. -/
def peekLoop (isPaused : Hash → Bool) :
    ℕ → SpotLimitOrderbook D → Option (PriceLevel D) × SpotLimitOrderbook D
  | 0, b => (none, b)
  | n + 1, b =>
    let b₁ := b.advanceNewOrder isPaused
    match b₁.currOrder with
    | none => (none, b₁)
    | some e =>
      if e.order.fillable - e.fillQuantity = 0 then
        peekLoop isPaused n { b₁ with currState := none }
      else (some ⟨e.order.orderInfo.price, e.order.fillable - e.fillQuantity⟩, b₁)

/-- `Peek`. Each round of its recursion fetches an order, but for the first. -/
def peek (isPaused : Hash → Bool) (b : SpotLimitOrderbook D) :
    Option (PriceLevel D) × SpotLimitOrderbook D :=
  peekLoop isPaused (b.queue.iterator.length + 2) b

/-- `Fill`: an order that is full is no longer current. -/
def fill (b : SpotLimitOrderbook D) (fillQuantity : D) : SpotLimitOrderbook D :=
  match b.currState with
  | none => b
  | some lane =>
    match b.queue.current lane with
    | none => b
    | some e =>
      { b with
        notional := b.notional + mul fillQuantity e.order.orderInfo.price
        totalQuantity := b.totalQuantity + fillQuantity
        queue := b.queue.modify (fun e => e.add fillQuantity) lane
        currState :=
          if e.fillQuantity + fillQuantity = e.order.fillable then none
          else some lane }

/-- All orders of the book with their fills. -/
def entries (isPaused : Hash → Bool) (b : SpotLimitOrderbook D) : List (SpotFill D) :=
  b.queue.entries (reader isPaused)

/-! ## The invariant of a book -/

/-- At least as good as every order that can still be matched. -/
def Best (isPaused : Hash → Bool) (ordered : Prop) (isBuy : Bool)
    (q : Queue (SpotLimitOrder D) (SpotFill D)) (c : SpotFill D) : Prop :=
  ∀ e ∈ q.entries (reader isPaused), (reader isPaused).Live e →
    NoBetter ordered isBuy e.order.orderInfo.price c.order.orderInfo.price

/-- What a book of the given unpaused orders keeps through a matching run; the priority of
    prices only where the orders are read in price order. -/
structure Inv (isPaused : Hash → Bool) (ordered : Prop) (isBuy : Bool)
    (orders : List (SpotLimitOrder D)) (b : SpotLimitOrderbook D) : Prop where
  side : b.isBuy = isBuy
  wf : b.queue.WF (reader isPaused) ordered isBuy
  curr : ∀ l, b.currState = some l → ∃ c, b.queue.current l = some c ∧
    (reader isPaused).Live c ∧ Best isPaused ordered isBuy b.queue c
  bounds : ∀ e ∈ b.entries isPaused, 0 ≤ e.fillQuantity ∧ e.fillQuantity ≤ e.order.fillable
  idle : ∀ e ∈ b.entries isPaused, isPaused e.order.orderInfo.subaccountID = true →
    e.fillQuantity = 0
  priority : ordered → ∀ e ∈ b.entries isPaused, ∀ f ∈ b.entries isPaused, 0 < f.fillQuantity →
    isPaused e.order.orderInfo.subaccountID = false →
    StrictlyBetter isBuy e.order.orderInfo.price f.order.orderInfo.price →
    e.fillQuantity = e.order.fillable
  total : b.totalQuantity = (b.queue.booked.map SpotFill.fillQuantity).sum
  orders : ((b.entries isPaused).filter
    (fun e => !isPaused e.order.orderInfo.subaccountID)).map SpotFill.order = orders

variable {isPaused : Hash → Bool} {ordered : Prop} {isBuy : Bool}
  {orders : List (SpotLimitOrder D)}
  {b : SpotLimitOrderbook D}

/-- Moving the cursors keeps the invariant, for a current order that is live and best. -/
theorem Inv.advance (h : Inv isPaused ordered isBuy orders b)
    {q : Queue (SpotLimitOrder D) (SpotFill D)} (hwf : q.WF (reader isPaused) ordered isBuy)
    (hadv : Queue.Advance (reader isPaused) b.queue q) {curr : Option Lane}
    (hcurr : ∀ l, curr = some l → ∃ c, q.current l = some c ∧
      (reader isPaused).Live c ∧ Best isPaused ordered isBuy q c) :
    Inv isPaused ordered isBuy orders { b with queue := q, currState := curr } := by
  have hsub : ∀ e ∈ q.entries (reader isPaused), e ∈ b.entries isPaused :=
    fun e he => hadv.entries_sublist.subset he
  refine ⟨h.side, hwf, hcurr, fun e he => h.bounds e (hsub e he),
    fun e he => h.idle e (hsub e he),
    fun ho e he f hf => h.priority ho e (hsub e he) f (hsub f hf), ?_, ?_⟩
  · exact h.total.trans (hadv.sum_booked SpotFill.fillQuantity (fun _ => rfl)).symm
  · exact (congrArg (List.map SpotFill.order) hadv.entries_filter).trans h.orders

/-- What `Peek` returns: the best live order, or the news that none is live. -/
structure PeekResult (isPaused : Hash → Bool) (ordered : Prop) (isBuy : Bool)
    (orders : List (SpotLimitOrder D)) (b : SpotLimitOrderbook D)
    (level : Option (PriceLevel D)) (b' : SpotLimitOrderbook D) : Prop where
  inv : Inv isPaused ordered isBuy orders b'
  advance : Queue.Advance (reader isPaused) b.queue b'.queue
  totalQuantity : b'.totalQuantity = b.totalQuantity
  notional : b'.notional = b.notional
  none : level = none → ∀ e ∈ b'.entries isPaused, ¬(reader isPaused).Live e
  some : ∀ a, level = some a → ∃ l c, b'.currState = some l ∧
    b'.queue.current l = some c ∧ (reader isPaused).Live c ∧
    Best isPaused ordered isBuy b'.queue c ∧
    a = ⟨c.order.orderInfo.price, c.order.fillable - c.fillQuantity⟩

theorem peekLoop_spec (n : ℕ) (h : Inv isPaused ordered isBuy orders b)
    (hn : b.queue.iterator.length < n) :
    PeekResult isPaused ordered isBuy orders b (peekLoop isPaused n b).1 (peekLoop isPaused n b).2 := by
  induction n generalizing b with
  | zero => exact absurd hn (Nat.not_lt_zero _)
  | succ n ih =>
    cases hcs : b.currState with
    | some l =>
      -- the current order is live by the invariant, and returned at once
      obtain ⟨c, hc, hlive, hbest⟩ := h.curr l hcs
      have hb : b.advanceNewOrder isPaused = b := by simp only [advanceNewOrder, hcs]
      have hco : b.currOrder = some c := by simp only [currOrder, hcs]; exact hc
      have hrem : ¬c.order.fillable - c.fillQuantity = 0 := hlive.1
      simp only [peekLoop, hb, hco, if_neg hrem]
      refine ⟨h, Queue.Advance.refl _, rfl, rfl, fun hnone => (nomatch hnone), ?_⟩
      intro a ha
      exact ⟨l, c, hcs, hc, hlive, hbest, (Option.some.inj ha).symm⟩
    | none =>
      obtain ⟨lane, q, hsel⟩ :
          ∃ lane q, b.queue.select (reader isPaused) isBuy = (lane, q) := ⟨_, _, rfl⟩
      obtain ⟨hwf, hadv, hnone, hsome⟩ := Queue.select_spec h.wf hsel
      have hb : b.advanceNewOrder isPaused = { b with queue := q, currState := lane } := by
        simp only [advanceNewOrder, hcs, h.side, hsel]
      cases lane with
      | none =>
        have hco : ({ b with queue := q, currState := none } :
            SpotLimitOrderbook D).currOrder = none := rfl
        simp only [peekLoop, hb, hco]
        exact ⟨h.advance hwf hadv (fun l hl => (nomatch hl)), hadv, rfl, rfl,
          fun _ => hnone rfl, fun a ha => (nomatch ha)⟩
      | some l =>
        obtain ⟨c, hc, hskip, hbest, hshort⟩ := hsome l rfl
        have hco : ({ b with queue := q, currState := some l } :
            SpotLimitOrderbook D).currOrder = some c := hc
        simp only [peekLoop, hb, hco]
        by_cases hrem : c.order.fillable - c.fillQuantity = 0
        · -- nothing remains of a freshly fetched order: go on to the next
          rw [if_pos hrem]
          have hinv : Inv isPaused ordered isBuy orders
              { b with queue := q, currState := none } :=
            h.advance hwf hadv (fun l hl => (nomatch hl))
          have hlt : q.iterator.length < b.queue.iterator.length := (hshort hrem).2
          have hrec := ih hinv (by show q.iterator.length < n; omega)
          exact ⟨hrec.inv, hadv.trans hrec.advance, hrec.totalQuantity,
            hrec.notional, hrec.none, hrec.some⟩
        · rw [if_neg hrem]
          have hlive : (reader isPaused).Live c := ⟨hrem, hskip⟩
          refine ⟨h.advance hwf hadv ?_, hadv, rfl, rfl, fun hnone => (nomatch hnone), ?_⟩
          · intro l' hl'
            cases hl'
            exact ⟨c, hc, hlive, hbest⟩
          · intro a ha
            exact ⟨l, c, rfl, hc, hlive, hbest, (Option.some.inj ha).symm⟩

theorem peek_spec (h : Inv isPaused ordered isBuy orders b) :
    PeekResult isPaused ordered isBuy orders b (b.peek isPaused).1 (b.peek isPaused).2 :=
  peekLoop_spec _ h (by omega)

variable {l : Lane} {c : SpotFill D}

section Fill

variable (hl : b.currState = some l) (hc : b.queue.current l = some c)
include hl hc

theorem Inv.current (h : Inv isPaused ordered isBuy orders b) :
    (reader isPaused).Live c ∧ Best isPaused ordered isBuy b.queue c := by
  obtain ⟨c', hc', hlive, hbest⟩ := h.curr l hl
  obtain rfl := Option.some.inj (hc.symm.trans hc')
  exact ⟨hlive, hbest⟩

theorem fill_eq (q : D) :
    b.fill q =
      { b with
        notional := b.notional + mul q c.order.orderInfo.price
        totalQuantity := b.totalQuantity + q
        queue := b.queue.modify (fun e => e.add q) l
        currState := if c.fillQuantity + q = c.order.fillable then none else some l } := by
  simp only [fill, hl, hc]

variable (isPaused) in
theorem fill_entries (q : D) :
    ∃ pre post, b.entries isPaused = pre ++ c :: post ∧
      (b.fill q).entries isPaused = pre ++ c.add q :: post := by
  obtain ⟨pre, post, hent, hent'⟩ :=
    Queue.entries_modify (R := reader isPaused) (f := fun e => SpotFill.add e q) hc
  exact ⟨pre, post, hent, by rw [fill_eq hl hc]; exact hent'⟩

/-- Filling the current order keeps the invariant: it was the best live one, so every
    better order is full. -/
theorem fill_inv (h : Inv isPaused ordered isBuy orders b) {q : D} (hq : 0 < q)
    (hle : q ≤ c.order.fillable - c.fillQuantity) :
    Inv isPaused ordered isBuy orders (b.fill q) := by
  obtain ⟨hlive, hbest⟩ := h.current hl hc
  obtain ⟨pre, post, hent, hent'⟩ := fill_entries isPaused hl hc q
  obtain ⟨pre', post', hbook, hbook'⟩ := Queue.booked_modify (f := fun e => SpotFill.add e q) hc
  have hunp : isPaused c.order.orderInfo.subaccountID = false := hlive.2
  have hcmem : c ∈ b.entries isPaused := by
    rw [hent]; exact List.mem_append_right _ List.mem_cons_self
  have hcb := h.bounds c hcmem
  -- an entry of the filled book is the filled order or was there before
  have hmem : ∀ e ∈ (b.fill q).entries isPaused, e = c.add q ∨ e ∈ b.entries isPaused := by
    intro e he
    rw [hent'] at he
    rw [hent]
    exact mem_replace pre he
  refine ⟨?_, ?_, ?_, ?_, ?_, ?_, ?_, ?_⟩
  · rw [fill_eq hl hc]; exact h.side
  · rw [fill_eq hl hc]; exact h.wf.modify hc rfl rfl
  · intro l' hl'
    rw [fill_eq hl hc] at hl' ⊢
    by_cases hfull : c.fillQuantity + q = c.order.fillable
    · rw [if_pos hfull] at hl'
      exact nomatch hl'
    · rw [if_neg hfull] at hl'
      cases hl'
      refine ⟨c.add q, Queue.current_modify hc, ⟨?_, hlive.2⟩, ?_⟩
      · intro hzero
        exact hfull (sub_eq_zero.mp hzero).symm
      · intro e he hel
        have he' := hmem e (by rw [entries, fill_eq hl hc]; exact he)
        rcases he' with rfl | he'
        · exact NoBetter.refl isBuy _
        · exact hbest e he' hel
  · intro e he
    rcases hmem e he with rfl | he
    · refine ⟨add_nonneg hcb.1 hq.le, ?_⟩
      show c.fillQuantity + q ≤ c.order.fillable
      grind
    · exact h.bounds e he
  · intro e he hp
    rcases hmem e he with rfl | he
    · exact absurd hp (by rw [show (c.add q).order = c.order from rfl, hunp]; simp)
    · exact h.idle e he hp
  · intro ho e he f hf hpos hnp hbetter
    rcases hmem e he with rfl | he'
    · rcases hmem f hf with rfl | hf'
      · exact absurd hbetter (not_strictlyBetter_self isBuy _)
      · -- a better order than a filled one was full already
        have hfull := h.priority ho c hcmem f hf' hpos hunp hbetter
        exact absurd (sub_eq_zero.mpr hfull.symm) hlive.1
    · rcases hmem f hf with rfl | hf'
      · by_contra hne
        have hel : (reader isPaused).Live e := ⟨fun hz => hne (sub_eq_zero.mp hz).symm, hnp⟩
        exact (hbest e he' hel).not_strictlyBetter ho hbetter
      · exact h.priority ho e he' f hf' hpos hnp hbetter
  · rw [fill_eq hl hc]
    show b.totalQuantity + q = _
    rw [hbook', h.total, hbook]
    exact (sum_map_replace pre' rfl).symm
  · have horders := h.orders
    rw [hent] at horders
    rw [hent']
    simpa [List.filter_append, SpotFill.add, hunp] using horders

end Fill

/-! ## The book as a side of the matching loop -/

/-- What the matching loop sees of a book. -/
def view (isPaused : Hash → Bool) : View (SpotLimitOrderbook D) D where
  live b := b.queue.livePrices (reader isPaused)
  filled b := ((b.entries isPaused).filter (fun e => 0 < e.fillQuantity)).map
    (fun e => e.order.orderInfo.price)
  total b := b.totalQuantity
  current b a := ∃ l c, b.currState = some l ∧ b.queue.current l = some c ∧
    (reader isPaused).Live c ∧ a = ⟨c.order.orderInfo.price, c.order.fillable - c.fillQuantity⟩

/-- **A SPOT BOOK IS A SIDE** of the loop, in price order if its orders are read so. -/
theorem sideSpec (isPaused : Hash → Bool) (ordered : Prop) (isBuy : Bool)
    (orders : List (SpotLimitOrder D)) :
    SideSpec (Inv isPaused ordered isBuy orders) (NoBetter ordered isBuy) (peek isPaused) fill
      (view isPaused) View.blank where
  refl := NoBetter.refl isBuy
  trans _ _ _ := NoBetter.trans
  peek_inv b h := (peek_spec h).inv
  peek_other b _ := View.same_blank _ _
  peek_live b h := by
    show List.Sublist (Queue.livePrices _ _) (Queue.livePrices _ _)
    rw [(peek_spec h).advance.livePrices_eq]
  peek_filled b h := (((peek_spec h).advance.entries_sublist.filter _).map _).subset
  peek_total b h := (peek_spec h).totalQuantity
  peek_none b h hnone := by
    have hdead := (peek_spec h).none hnone
    simp only [view, Queue.livePrices, List.map_eq_nil_iff, List.filter_eq_nil_iff,
      decide_eq_true_eq]
    exact hdead
  peek_some b a h ha := by
    obtain ⟨l, c, hl, hc, hlive, hbest, rfl⟩ := (peek_spec h).some a ha
    have hmem : c ∈ (b.peek isPaused).2.entries isPaused := by
      obtain ⟨pre, post, hent, -⟩ := fill_entries isPaused hl hc 0
      rw [hent]
      exact List.mem_append_right _ List.mem_cons_self
    refine ⟨⟨l, c, hl, hc, hlive, rfl⟩, ?_, ?_, ?_⟩
    · have hle := ((peek_spec h).inv.bounds c hmem).2
      exact lt_of_le_of_ne (sub_nonneg.mpr hle) (Ne.symm hlive.1)
    · exact List.mem_map_of_mem (f := (reader isPaused).price)
        (List.mem_filter.mpr ⟨hmem, decide_eq_true hlive⟩)
    · intro p hp
      obtain ⟨e, he, rfl⟩ := List.mem_map.mp hp
      obtain ⟨hmem', hlive'⟩ := List.mem_filter.mp he
      exact hbest e hmem' (of_decide_eq_true hlive')
  fill_inv b a q h ha hq hle := by
    obtain ⟨l, c, hl, hc, -, rfl⟩ := ha
    exact fill_inv hl hc h hq hle
  fill_other b _ _ _ _ _ _ := View.same_blank _ _
  fill_live b a q h ha _ _ := by
    obtain ⟨l, c, hl, hc, hlive, -⟩ := ha
    obtain ⟨pre, post, hent, hent'⟩ := fill_entries isPaused hl hc q
    rw [entries] at hent hent'
    simp only [view, Queue.livePrices, hent, hent']
    exact prices_replace_sublist pre rfl hlive
  fill_done b a q h ha _ hq := by
    obtain ⟨l, c, hl, hc, hlive, rfl⟩ := ha
    obtain ⟨pre, post, hent, hent'⟩ := fill_entries isPaused hl hc q
    rw [entries] at hent hent'
    simp only [view, Queue.livePrices, hent, hent']
    refine length_prices_replace_lt pre hlive (fun hopen => hopen.1 ?_)
    show c.order.fillable - (c.fillQuantity + q) = 0
    rw [hq, sub_eq_zero, add_sub_cancel]
  fill_filled b a q h ha _ _ := by
    obtain ⟨l, c, hl, hc, -, rfl⟩ := ha
    obtain ⟨pre, post, hent, hent'⟩ := fill_entries isPaused hl hc q
    simp only [view, hent, hent']
    exact prices_replace_subset pre rfl
  fill_total b a q h ha _ _ := by
    obtain ⟨l, c, hl, hc, -, -⟩ := ha
    show (b.fill q).totalQuantity = b.totalQuantity + q
    rw [fill_eq hl hc]

end SpotLimitOrderbook

/-! ## The auction over two limit books -/

/-- The orders of one side in the order in which the store and the block hand them out, with
    nothing overfilled. -/
structure SideOrders (D : Type) [DecArith D] (isBuy : Bool) where
  resting : List (SpotLimitOrder D)
  transient : List (SpotLimitOrder D)
  fillable_nonneg : ∀ o ∈ resting ++ transient, 0 ≤ o.fillable

/-- Both lists of a side are in price order. The store reads them by their padded price
    keys, so they are unless a price of 33 digits is among them. -/
def SideOrders.Sorted {isBuy : Bool} (side : SideOrders D isBuy) : Prop :=
  InPriceOrder isBuy (side.resting.map (·.orderInfo.price)) ∧
    InPriceOrder isBuy (side.transient.map (·.orderInfo.price))

/-- The book of a side before matching. -/
def SideOrders.book {isBuy : Bool} (side : SideOrders D isBuy) : SpotLimitOrderbook D :=
  .initial side.resting side.transient isBuy

/-- The orders of a side that are not under emergency pause. -/
def SideOrders.unpaused {isBuy : Bool} (side : SideOrders D isBuy)
    (isPaused : Hash → Bool) : List (SpotLimitOrder D) :=
  (side.resting ++ side.transient).filter (fun o => !isPaused o.orderInfo.subaccountID)

/-- The two books as sides of the matching loop. -/
def limitSides (isPaused : Hash → Bool) :
    Sides (SpotLimitOrderbook D × SpotLimitOrderbook D) D :=
  .pair (SpotLimitOrderbook.peek isPaused) SpotLimitOrderbook.fill
    (SpotLimitOrderbook.peek isPaused) SpotLimitOrderbook.fill pricesCross

/-- The trades of `Match` over two limit books. -/
def limitTrades (isPaused : Hash → Bool) (buyOrderbook sellOrderbook : SpotLimitOrderbook D) :
    List (Trade D) :=
  (limitSides isPaused).trades
    ((buyOrderbook.entries isPaused).length + (sellOrderbook.entries isPaused).length + 1)
    (buyOrderbook, sellOrderbook)

/-- `Match` over two limit books, with fuel for one iteration per order. -/
def matchLimitOrderbooks (isPaused : Hash → Bool) (calculate : D → D → D → D)
    (buyOrderbook sellOrderbook : SpotLimitOrderbook D) :
    Option (MatchResult D × SpotLimitOrderbook D × SpotLimitOrderbook D) :=
  matchBooks (limitSides isPaused) (fun s => s.2.totalQuantity) calculate
    ((buyOrderbook.entries isPaused).length + (sellOrderbook.entries isPaused).length + 1)
    (buyOrderbook, sellOrderbook)

section Initial

variable {isBuy : Bool} (side : SideOrders D isBuy) (isPaused : Hash → Bool)

theorem SideOrders.entries_book : side.book.entries isPaused =
    (side.resting ++ side.transient).map (fun o => ⟨o, 0⟩) := by
  rw [List.map_append]
  rfl

theorem SideOrders.book_inv :
    SpotLimitOrderbook.Inv isPaused side.Sorted isBuy (side.unpaused isPaused) side.book := by
  have hentry : ∀ e ∈ side.book.entries isPaused,
      e.fillQuantity = 0 ∧ e.order ∈ side.resting ++ side.transient := by
    intro e he
    rw [side.entries_book] at he
    obtain ⟨o, ho, rfl⟩ := List.mem_map.mp he
    exact ⟨rfl, ho⟩
  refine ⟨rfl, ⟨?_, ?_, ?_, ?_, ?_⟩, ?_, ?_, ?_, ?_, ?_, ?_⟩
  · exact List.forall_mem_nil _
  · exact List.forall_mem_nil _
  · exact List.forall_mem_nil _
  · exact List.pairwise_map.mpr (pairwise_noBetter And.left)
  · exact List.pairwise_map.mpr (pairwise_noBetter And.right)
  · intro l hl
    exact nomatch hl
  · intro e he
    obtain ⟨h0, ho⟩ := hentry e he
    rw [h0]
    exact ⟨le_refl 0, side.fillable_nonneg _ ho⟩
  · intro e he _
    exact (hentry e he).1
  · intro _ e _ f hf hpos
    rw [(hentry f hf).1] at hpos
    exact absurd hpos (lt_irrefl 0)
  · show (0 : D) = ((([] : List (SpotFill D)).reverse ++
      ([] ++ side.transient.map (fun o => (⟨o, 0⟩ : SpotFill D)))).map SpotFill.fillQuantity).sum
    symm
    refine List.sum_eq_zero ?_
    intro x hx
    simp only [List.reverse_nil, List.nil_append, List.map_map, List.mem_map] at hx
    obtain ⟨o, -, rfl⟩ := hx
    rfl
  · rw [side.entries_book, List.filter_map, List.map_map]
    exact List.map_id _

theorem SideOrders.filled_book :
    (SpotLimitOrderbook.view isPaused).filled side.book = [] := by
  simp only [SpotLimitOrderbook.view, side.entries_book, List.map_eq_nil_iff,
    List.filter_eq_nil_iff, decide_eq_true_eq]
  intro e he
  obtain ⟨o, -, rfl⟩ := List.mem_map.mp he
  exact lt_irrefl 0

end Initial

section Auction

variable (isPaused : Hash → Bool)

/-- Both books of an auction keep their invariants. -/
def LimitInv (buys : SideOrders D true) (sells : SideOrders D false)
    (s : SpotLimitOrderbook D × SpotLimitOrderbook D) : Prop :=
  SpotLimitOrderbook.Inv isPaused buys.Sorted true (buys.unpaused isPaused) s.1 ∧
    SpotLimitOrderbook.Inv isPaused sells.Sorted false (sells.unpaused isPaused) s.2

theorem limitSides_spec (buys : SideOrders D true) (sells : SideOrders D false) :
    SideSpec (LimitInv isPaused buys sells) (NoBetter buys.Sorted true)
      (limitSides isPaused).peekFirst (limitSides isPaused).fillFirst
      ((SpotLimitOrderbook.view isPaused).comap Prod.fst)
      ((SpotLimitOrderbook.view isPaused).comap Prod.snd) ∧
    SideSpec (LimitInv isPaused buys sells) (NoBetter sells.Sorted false)
      (limitSides isPaused).peekSecond (limitSides isPaused).fillSecond
      ((SpotLimitOrderbook.view isPaused).comap Prod.snd)
      ((SpotLimitOrderbook.view isPaused).comap Prod.fst) :=
  SideSpec.pair pricesCross
    (SpotLimitOrderbook.sideSpec isPaused buys.Sorted true (buys.unpaused isPaused))
    (SpotLimitOrderbook.sideSpec isPaused sells.Sorted false (sells.unpaused isPaused))

theorem matchLimitOrderbooks_finishes (calculate : D → D → D → D)
    (buys : SideOrders D true) (sells : SideOrders D false) :
    ∃ result buy sell, matchLimitOrderbooks isPaused calculate buys.book sells.book =
      some (result, buy, sell) := by
  obtain ⟨hbuy, hsell⟩ := limitSides_spec isPaused buys sells
  obtain ⟨⟨ts, buy, sell⟩, hrun⟩ := run_finishes hbuy hsell
    (n := (buys.book.entries isPaused).length + (sells.book.entries isPaused).length + 1)
    (s := (buys.book, sells.book))
    ⟨buys.book_inv isPaused, sells.book_inv isPaused⟩
    (Nat.lt_succ_of_le (Nat.add_le_add Queue.length_livePrices_le Queue.length_livePrices_le))
  exact ⟨_, buy, sell, by rw [matchLimitOrderbooks, matchBooks, hrun]; rfl⟩

end Auction

/-- A side after matching: its unpaused orders are all there, none is filled beyond its
    fillable quantity, none that is paused has a fill, and on a side that is read in price
    order one has a fill only if every strictly better one is full. -/
structure Matched (isPaused : Hash → Bool) {isBuy : Bool} (side : SideOrders D isBuy)
    (b : SpotLimitOrderbook D) : Prop where
  orders : ((b.entries isPaused).filter
      (fun e => !isPaused e.order.orderInfo.subaccountID)).map SpotFill.order =
    side.unpaused isPaused
  bounds : ∀ e ∈ b.entries isPaused, 0 ≤ e.fillQuantity ∧ e.fillQuantity ≤ e.order.fillable
  idle : ∀ e ∈ b.entries isPaused, isPaused e.order.orderInfo.subaccountID = true →
    e.fillQuantity = 0
  priority : side.Sorted → ∀ e ∈ b.entries isPaused, ∀ f ∈ b.entries isPaused, 0 < f.fillQuantity →
    isPaused e.order.orderInfo.subaccountID = false →
    StrictlyBetter isBuy e.order.orderInfo.price f.order.orderInfo.price →
    e.fillQuantity = e.order.fillable

/-- The quantity filled on a side, over its resting and transient orders. -/
def filledQuantity (b : SpotLimitOrderbook D) : D :=
  ((b.getRestingOrderbookFills ++ b.getTransientOrderbookFills).map
    SpotFill.fillQuantity).sum

variable {isPaused : Hash → Bool}

theorem matched_of_inv {isBuy : Bool} {side : SideOrders D isBuy} {b : SpotLimitOrderbook D}
    (h : SpotLimitOrderbook.Inv isPaused side.Sorted isBuy (side.unpaused isPaused) b) :
    Matched isPaused side b :=
  ⟨h.orders, h.bounds, h.idle, h.priority⟩

variable {calculate : D → D → D → D} {buys : SideOrders D true} {sells : SideOrders D false}
  {result : MatchResult D} {buy sell : SpotLimitOrderbook D}

/-- What a finished auction leaves: both books in order, the same quantity filled on both
    sides, and, where both are read in price order, no open orders that cross. -/
theorem matchLimitOrderbooks_spec
    (h : matchLimitOrderbooks isPaused calculate buys.book sells.book = some (result, buy, sell)) :
    LimitInv isPaused buys sells (buy, sell) ∧
      filledQuantity buy = result.clearingQuantity ∧
      filledQuantity sell = result.clearingQuantity ∧
      (buys.Sorted → sells.Sorted → ∀ e ∈ buy.entries isPaused, ∀ f ∈ sell.entries isPaused,
        isPaused e.order.orderInfo.subaccountID = false →
        isPaused f.order.orderInfo.subaccountID = false →
        e.fillQuantity < e.order.fillable → f.fillQuantity < f.order.fillable →
        e.order.orderInfo.price < f.order.orderInfo.price) := by
  obtain ⟨ts, hrun, -, -, hcq, -⟩ := matchBooks_some h
  obtain ⟨hbuy, hsell⟩ := limitSides_spec isPaused buys sells
  obtain ⟨⟨hb, hs⟩, htb, hts, -, -, -, hmax⟩ := run_spec hbuy hsell
    (s := (buys.book, sells.book))
    ⟨buys.book_inv isPaused, sells.book_inv isPaused⟩
    (buys.filled_book isPaused) (sells.filled_book isPaused) hrun
  have hequal : buy.totalQuantity = sell.totalQuantity := htb.trans hts.symm
  refine ⟨⟨hb, hs⟩, ?_, ?_, ?_⟩
  · exact hb.total.symm.trans (hequal.trans hcq.symm)
  · exact hs.total.symm.trans hcq.symm
  · intro hsb hss e he f hf hpe hpf hoe hof
    -- both orders are still open, so neither side is exhausted
    have hle : e.order.orderInfo.price ∈ (SpotLimitOrderbook.view isPaused).live buy :=
      List.mem_map.mpr ⟨e, List.mem_filter.mpr
        ⟨he, decide_eq_true ⟨(sub_pos.mpr hoe).ne', hpe⟩⟩, rfl⟩
    have hlf : f.order.orderInfo.price ∈ (SpotLimitOrderbook.view isPaused).live sell :=
      List.mem_map.mpr ⟨f, List.mem_filter.mpr
        ⟨hf, decide_eq_true ⟨(sub_pos.mpr hof).ne', hpf⟩⟩, rfl⟩
    rcases hmax with hnil | hnil | ⟨p, p', hno, hp, hp'⟩
    · change (SpotLimitOrderbook.view isPaused).live buy = [] at hnil
      rw [hnil] at hle
      exact nomatch hle
    · change (SpotLimitOrderbook.view isPaused).live sell = [] at hnil
      rw [hnil] at hlf
      exact nomatch hlf
    · have hbp : e.order.orderInfo.price ≤ p := hp _ hle hsb
      have hsp : p' ≤ f.order.orderInfo.price := hp' _ hlf hss
      exact lt_of_le_of_lt hbp (lt_of_lt_of_le (pricesCross_eq_false.mp hno) hsp)

/-- The clearing price of an auction that matched something lies between the last matched
    prices. A side whose matched prices came in order has no fill on the wrong side of it. -/
structure WithinLimits (isPaused : Hash → Bool) (ts : List (Trade D)) (result : MatchResult D)
    (buy sell : SpotLimitOrderbook D) : Prop where
  low : result.lastSellPrice ≤ result.clearingPrice
  high : result.clearingPrice ≤ result.lastBuyPrice
  buys : InPriceOrder true (ts.map Trade.firstPrice) →
    ∀ e ∈ buy.entries isPaused, 0 < e.fillQuantity →
      result.clearingPrice ≤ e.order.orderInfo.price
  sells : InPriceOrder false (ts.map Trade.secondPrice) →
    ∀ e ∈ sell.entries isPaused, 0 < e.fillQuantity →
      e.order.orderInfo.price ≤ result.clearingPrice

section Limits

variable (hcalc : Between calculate)
  (h : matchLimitOrderbooks isPaused calculate buys.book sells.book = some (result, buy, sell))
include hcalc h

theorem matchLimitOrderbooks_within_limits :
    (0 < result.clearingQuantity →
      WithinLimits isPaused (limitTrades isPaused buys.book sells.book) result buy sell) ∧
    (buys.Sorted → InPriceOrder true
      ((limitTrades isPaused buys.book sells.book).map Trade.firstPrice)) ∧
    (sells.Sorted → InPriceOrder false
      ((limitTrades isPaused buys.book sells.book).map Trade.secondPrice)) := by
  obtain ⟨hbuy, hsell⟩ := limitSides_spec isPaused buys sells
  obtain ⟨-, hmatched, horder⟩ := matchBooks_within_limits hbuy hsell rfl hcalc
    (s := (buys.book, sells.book))
    ⟨buys.book_inv isPaused, sells.book_inv isPaused⟩
    (buys.filled_book isPaused) (sells.filled_book isPaused) rfl h
  refine ⟨?_, horder⟩
  intro hpos
  obtain ⟨-, hlow, hhigh, hbuys, hsells⟩ := hmatched hpos
  refine ⟨hlow, hhigh, ?_, ?_⟩
  · intro ho e he hfill
    exact hbuys ho _ (List.mem_map.mpr ⟨e, List.mem_filter.mpr ⟨he, decide_eq_true hfill⟩, rfl⟩)
  · intro ho e he hfill
    exact hsells ho _ (List.mem_map.mpr ⟨e, List.mem_filter.mpr ⟨he, decide_eq_true hfill⟩, rfl⟩)

/-- The last matched sell price is that of a sell. -/
theorem lastSellPrice_mem (hpos : 0 < result.clearingQuantity) :
    ∃ o ∈ sells.resting ++ sells.transient, o.orderInfo.price = result.lastSellPrice := by
  obtain ⟨hbuy, hsell⟩ := limitSides_spec isPaused buys sells
  obtain ⟨-, hmatched, -⟩ := matchBooks_within_limits hbuy hsell rfl hcalc
    (s := (buys.book, sells.book))
    ⟨buys.book_inv isPaused, sells.book_inv isPaused⟩
    (buys.filled_book isPaused) (sells.filled_book isPaused) rfl h
  obtain ⟨e, he, hprice⟩ := List.mem_map.mp (hmatched hpos).1
  have hmem := List.mem_of_mem_filter he
  rw [show sells.book.queue.entries _ = _ from sells.entries_book isPaused] at hmem
  obtain ⟨o, ho, rfl⟩ := List.mem_map.mp hmem
  exact ⟨o, ho, hprice⟩

end Limits

/-- **THE AUCTION IS CORRECT**: over any two sides the loop ends, both sides fill the
    clearing quantity and every order is within its fillable quantity. Price priority holds
    on each side that is read in price order; if both are, every open unpaused buy is below
    every open unpaused sell. -/
theorem spot_fba_match_correct (isPaused : Hash → Bool) (calculate : D → D → D → D)
    (buys : SideOrders D true) (sells : SideOrders D false) :
    ∃ result buy sell,
      matchLimitOrderbooks isPaused calculate buys.book sells.book =
        some (result, buy, sell) ∧
      filledQuantity buy = result.clearingQuantity ∧
      filledQuantity sell = result.clearingQuantity ∧
      Matched isPaused buys buy ∧ Matched isPaused sells sell ∧
      (buys.Sorted → sells.Sorted → ∀ e ∈ buy.entries isPaused, ∀ f ∈ sell.entries isPaused,
        isPaused e.order.orderInfo.subaccountID = false →
        isPaused f.order.orderInfo.subaccountID = false →
        e.fillQuantity < e.order.fillable → f.fillQuantity < f.order.fillable →
        e.order.orderInfo.price < f.order.orderInfo.price) := by
  obtain ⟨result, buy, sell, hmatch⟩ :=
    matchLimitOrderbooks_finishes isPaused calculate buys sells
  obtain ⟨⟨hb, hs⟩, hqb, hqs, hmax⟩ := matchLimitOrderbooks_spec hmatch
  exact ⟨result, buy, sell, hmatch, hqb, hqs, matched_of_inv hb, matched_of_inv hs, hmax⟩

/-- An unfilled limit order. -/
def sampleOrder (subaccountID : Hash) (orderType : ExchangeFees.OrderType)
    (price fillable : ℚ) : SpotLimitOrder ℚ :=
  { orderInfo := { subaccountID := subaccountID, feeRecipient := 0, price := price
                   quantity := fillable, cid := "" }
    orderType := orderType, fillable := fillable, orderHash := subaccountID }

/-- A paused order is passed over: with subaccount 1 under emergency pause, its buy at 2
    stays untouched while a buy at 1 is filled, and it is left crossing the rest of the
    sell at 1. -/
theorem paused_order_is_passed_over :
    (matchLimitOrderbooks (fun s => s == 1) (fun _ _ _ => 1)
      (.initial [sampleOrder 1 .buy 2 1, sampleOrder 2 .buy 1 1] [] true)
      (.initial [] [sampleOrder 3 .sell 1 2] false)).map
        (fun r => (r.1.clearingQuantity, r.2.1.getRestingOrderbookFills,
          r.2.2.getTransientOrderbookFills)) =
      some (1, [⟨sampleOrder 2 .buy 1 1, 1⟩], [⟨sampleOrder 3 .sell 1 2, 1⟩]) := by
  decide +kernel

end ExchangeSpotBook
