import Mathlib

/-!
# Two queues read as one

One side of a book is fed from two sources: orders that rest in a store and are fetched one by
one from an iterator, and the transient orders of the current block, held in a list with an
index. `select` finds the lane whose next order is best and leaves both queues with that
order in front.

- An entry is **live** while it has something remaining and is not to be skipped.
- `select_spec`: `select` only moves cursors over entries that are not live. If both sources
  are sorted by price, what it selects is at least as good as every live entry.
- `entries_modify`: writing to the selected entry changes nothing else.

Together they say that a side behaves like a single queue, which is in price order if its two
sources are. That they are is a proposition `ordered` that the facts about prices carry
along.
-/

namespace TwoQueue

/-- The source an order comes from. -/
inductive Lane where
  | resting
  | transient
  deriving DecidableEq, Repr

/-- How orders of the iterator become entries, and how entries are read. -/
structure Reader (O E D : Type) where
  load : O → E
  remaining : E → D
  price : E → D
  skip : E → Bool

/-- The two queues: fetched resting entries with the latest first, the iterator, and the
    transient entries before and from the index on. -/
structure Queue (O E : Type) where
  fetched : List E
  iterator : List O
  passed : List E
  pending : List E
  deriving DecidableEq, Repr

/-! ## Prices of a side -/

section Prices

variable {D : Type} [LinearOrder D]

/-- Buys prefer higher prices, sells lower ones. -/
def StrictlyBetter (isBuy : Bool) (p p' : D) : Prop :=
  if isBuy then p' < p else p < p'

instance (isBuy : Bool) (p p' : D) : Decidable (StrictlyBetter isBuy p p') :=
  inferInstanceAs (Decidable (if isBuy then p' < p else p < p'))

/-- The price `p` is no better than `p'`, on a side that is in price order. -/
def NoBetter (ordered : Prop) (isBuy : Bool) (p p' : D) : Prop :=
  ordered → if isBuy then p ≤ p' else p' ≤ p

variable {ordered : Prop} {isBuy : Bool} {p p' : D}

theorem noBetter_of_not (h : ¬StrictlyBetter isBuy p p') : NoBetter ordered isBuy p p' := by
  cases isBuy
  · exact fun _ => not_lt.mp h
  · exact fun _ => not_lt.mp h

theorem NoBetter.not_strictlyBetter (h : NoBetter ordered isBuy p p') (ho : ordered) :
    ¬StrictlyBetter isBuy p p' := by
  cases isBuy
  · exact not_lt.mpr (h ho)
  · exact not_lt.mpr (h ho)

/-- Prices that come in the order of a side: none is strictly better than an earlier one. -/
def InPriceOrder (isBuy : Bool) (prices : List D) : Prop :=
  prices.Pairwise (fun p p' => ¬StrictlyBetter isBuy p' p)

theorem pairwise_noBetter {O : Type} {price : O → D} {orders : List O}
    (h : ordered → InPriceOrder isBuy (orders.map price)) :
    orders.Pairwise (fun x y => NoBetter ordered isBuy (price y) (price x)) := by
  by_cases ho : ordered
  · exact (List.pairwise_map.mp (h ho)).imp noBetter_of_not
  · exact List.pairwise_of_forall (fun _ _ hc => absurd hc ho)

theorem inPriceOrder_of_noBetter {prices : List D}
    (h : prices.Pairwise (fun p p' => NoBetter ordered isBuy p' p)) (ho : ordered) :
    InPriceOrder isBuy prices :=
  h.imp (fun hp => hp.not_strictlyBetter ho)

theorem not_strictlyBetter_self (isBuy : Bool) (p : D) : ¬StrictlyBetter isBuy p p := by
  cases isBuy
  · exact lt_irrefl p
  · exact lt_irrefl p

theorem NoBetter.refl (isBuy : Bool) (p : D) : NoBetter ordered isBuy p p :=
  noBetter_of_not (not_strictlyBetter_self isBuy p)

theorem NoBetter.trans {p'' : D} (h : NoBetter ordered isBuy p p')
    (h' : NoBetter ordered isBuy p' p'') : NoBetter ordered isBuy p p'' := by
  cases isBuy
  · exact fun ho => le_trans (α := D) (h' ho) (h ho)
  · exact fun ho => le_trans (α := D) (h ho) (h' ho)

theorem StrictlyBetter.noBetter (h : StrictlyBetter isBuy p p') :
    NoBetter ordered isBuy p' p := by
  cases isBuy
  · exact fun _ => le_of_lt (α := D) h
  · exact fun _ => le_of_lt (α := D) h

end Prices

variable {O E D : Type}

/-- The first order of the iterator that is not to be skipped. -/
def nextUnskipped (R : Reader O E D) : List O → Option E × List O
  | [] => (none, [])
  | o :: rest =>
    if R.skip (R.load o) then nextUnskipped R rest else (some (R.load o), rest)

variable {R : Reader O E D} {l rest : List O}

theorem nextUnskipped_some {e : E} (h : nextUnskipped R l = (some e, rest)) :
    ∃ skipped o, l = skipped ++ o :: rest ∧ (∀ x ∈ skipped, R.skip (R.load x) = true) ∧
      e = R.load o ∧ R.skip e = false := by
  induction l with
  | nil => exact absurd h (by simp [nextUnskipped])
  | cons o l ih =>
    rw [nextUnskipped] at h
    by_cases ho : R.skip (R.load o) = true
    · rw [if_pos ho] at h
      obtain ⟨skipped, o', rfl, hs, he⟩ := ih h
      exact ⟨o :: skipped, o', rfl, List.forall_mem_cons.mpr ⟨ho, hs⟩, he⟩
    · rw [if_neg ho] at h
      simp only [Prod.mk.injEq, Option.some.injEq] at h
      obtain ⟨rfl, rfl⟩ := h
      exact ⟨[], o, rfl, List.forall_mem_nil _, rfl, by simpa using ho⟩

theorem nextUnskipped_none (h : nextUnskipped R l = (none, rest)) :
    rest = [] ∧ ∀ o ∈ l, R.skip (R.load o) = true := by
  induction l with
  | nil =>
    simp only [nextUnskipped, Prod.mk.injEq, true_and] at h
    exact ⟨h.symm, List.forall_mem_nil _⟩
  | cons o l ih =>
    rw [nextUnskipped] at h
    by_cases ho : R.skip (R.load o) = true
    · rw [if_pos ho] at h
      obtain ⟨hrest, hs⟩ := ih h
      exact ⟨hrest, List.forall_mem_cons.mpr ⟨ho, hs⟩⟩
    · rw [if_neg ho] at h
      exact absurd h (by simp)

variable [LinearOrder D] [Zero D]

/-- Entries that can still be matched. -/
def Reader.Live (R : Reader O E D) (e : E) : Prop :=
  R.remaining e ≠ 0 ∧ R.skip e = false

instance (R : Reader O E D) (e : E) : Decidable (R.Live e) :=
  inferInstanceAs (Decidable (_ ∧ _))

omit [LinearOrder D] in
theorem not_live_iff {e : E} : ¬R.Live e ↔ R.remaining e = 0 ∨ R.skip e = true := by
  rw [Reader.Live, not_and_or, not_not, Bool.not_eq_false]

/-! ## Moving the cursors -/

/-- Move past the transient entries that are filled or to be skipped. -/
def dropDone (R : Reader O E D) : List E → List E → List E × List E
  | passed, [] => (passed, [])
  | passed, e :: rest =>
    if R.remaining e = 0 ∨ R.skip e = true then dropDone R (passed ++ [e]) rest
    else (passed, e :: rest)

namespace Queue

/-- Fetch the next resting order. -/
def fetch (R : Reader O E D) (q : Queue O E) : Option E × Queue O E :=
  match nextUnskipped R q.iterator with
  | (some e, rest) => (some e, { q with fetched := e :: q.fetched, iterator := rest })
  | (none, rest) => (none, { q with iterator := rest })

/-- The resting order in front: the one fetched last if it has something remaining,
    else the next one. -/
def restingOrder (R : Reader O E D) (q : Queue O E) : Option E × Queue O E :=
  match q.fetched with
  | e :: _ => if R.remaining e = 0 then q.fetch R else (some e, q)
  | [] => q.fetch R

/-- The transient order in front. -/
def transientOrder (R : Reader O E D) (q : Queue O E) : Option E × Queue O E :=
  ((dropDone R q.passed q.pending).2.head?,
    { q with passed := (dropDone R q.passed q.pending).1,
             pending := (dropDone R q.passed q.pending).2 })

/-- The lane whose front order is best; the resting one if both are equally good. -/
def select (R : Reader O E D) (isBuy : Bool) (q : Queue O E) : Option Lane × Queue O E :=
  let q₁ := (q.restingOrder R).2
  let q₂ := (q₁.transientOrder R).2
  match (q.restingOrder R).1, (q₁.transientOrder R).1 with
  | some r, some t =>
    (some (if StrictlyBetter isBuy (R.price t) (R.price r) then .transient
      else .resting), q₂)
  | some _, none => (some .resting, q₂)
  | none, some _ => (some .transient, q₂)
  | none, none => (none, q₂)

/-- The entry in front of a lane. -/
def current (q : Queue O E) : Lane → Option E
  | .resting => q.fetched.head?
  | .transient => q.pending.head?

/-- Rewrite the entry in front of a lane. -/
def modify (q : Queue O E) (f : E → E) : Lane → Queue O E
  | .resting => { q with fetched := q.fetched.modifyHead f }
  | .transient => { q with pending := q.pending.modifyHead f }

/-- The entries that have been handed out: fetched resting ones and all transient
    ones. -/
def booked (q : Queue O E) : List E := q.fetched.reverse ++ (q.passed ++ q.pending)

/-- All entries of the side, those still in the iterator included. -/
def entries (R : Reader O E D) (q : Queue O E) : List E :=
  q.fetched.reverse ++ q.iterator.map R.load ++ (q.passed ++ q.pending)

/-- Queues whose sources are sorted and whose cursors have only passed entries that are
    not live. -/
structure WF (R : Reader O E D) (ordered : Prop) (isBuy : Bool) (q : Queue O E) : Prop where
  done : ∀ e ∈ q.fetched.tail, R.remaining e = 0
  unskipped : ∀ e ∈ q.fetched, R.skip e = false
  passed : ∀ e ∈ q.passed, ¬R.Live e
  resting_sorted : (q.fetched.reverse ++ q.iterator.map R.load).Pairwise
    (fun x y => NoBetter ordered isBuy (R.price y) (R.price x))
  transient_sorted : q.pending.Pairwise
    (fun x y => NoBetter ordered isBuy (R.price y) (R.price x))

/-- One queue is another with its cursors moved over entries that are not live: orders
    of the iterator were fetched or skipped, and some transient entries were passed. -/
structure Advance (R : Reader O E D) (q q' : Queue O E) : Prop where
  resting : ∃ consumed, q.iterator = consumed ++ q'.iterator ∧
    q'.fetched =
      ((consumed.filter (fun o => !R.skip (R.load o))).map R.load).reverse ++ q.fetched
  transient : ∃ dropped, q.pending = dropped ++ q'.pending ∧
    q'.passed = q.passed ++ dropped ∧ ∀ e ∈ dropped, ¬R.Live e

variable {R : Reader O E D} {ordered : Prop} {isBuy : Bool} {q q' : Queue O E}

theorem dropDone_spec (passed pending : List E) :
    ∃ dropped, pending = dropped ++ (dropDone R passed pending).2 ∧
      (dropDone R passed pending).1 = passed ++ dropped ∧ (∀ e ∈ dropped, ¬R.Live e) ∧
      ∀ e ∈ (dropDone R passed pending).2.head?, R.Live e := by
  induction pending generalizing passed with
  | nil =>
    refine ⟨[], rfl, (List.append_nil _).symm, List.forall_mem_nil _, ?_⟩
    intro e he
    exact nomatch he
  | cons e rest ih =>
    rw [dropDone]
    by_cases he : R.remaining e = 0 ∨ R.skip e = true
    · rw [if_pos he]
      obtain ⟨dropped, hp, hd, hdead, hlive⟩ := ih (passed ++ [e])
      refine ⟨e :: dropped, by rw [List.cons_append, ← hp], ?_,
        List.forall_mem_cons.mpr ⟨not_live_iff.mpr he, hdead⟩, hlive⟩
      rw [hd, List.append_assoc, List.singleton_append]
    · rw [if_neg he]
      refine ⟨[], rfl, (List.append_nil _).symm, List.forall_mem_nil _, ?_⟩
      intro x hx
      cases hx
      exact not_not.mp (mt not_live_iff.mp he)

omit [LinearOrder D] [Zero D] in
theorem booked_subset_entries : q.booked ⊆ q.entries R := by
  intro e he
  rcases List.mem_append.mp he with he | he
  · exact List.mem_append_left _ (List.mem_append_left _ he)
  · exact List.mem_append_right _ he

/-! ## What an advance keeps -/

namespace Advance

omit [LinearOrder D] in
theorem refl (q : Queue O E) : Advance R q q :=
  ⟨⟨[], rfl, rfl⟩, ⟨[], rfl, (List.append_nil _).symm, List.forall_mem_nil _⟩⟩

variable (h : Advance R q q')
include h

omit [LinearOrder D] in
theorem trans {q'' : Queue O E} (h' : Advance R q' q'') : Advance R q q'' := by
  obtain ⟨c, hc, hf⟩ := h.resting
  obtain ⟨c', hc', hf'⟩ := h'.resting
  obtain ⟨d, hd, hp, hdead⟩ := h.transient
  obtain ⟨d', hd', hp', hdead'⟩ := h'.transient
  refine ⟨⟨c ++ c', ?_, ?_⟩, ⟨d ++ d', ?_, ?_, List.forall_mem_append.mpr ⟨hdead, hdead'⟩⟩⟩
  · rw [hc, hc', List.append_assoc]
  · rw [hf', hf, List.filter_append, List.map_append, List.reverse_append, List.append_assoc]
  · rw [hd, hd', List.append_assoc]
  · rw [hp', hp, List.append_assoc]

omit [LinearOrder D] in
theorem entries_sublist : (q'.entries R).Sublist (q.entries R) := by
  obtain ⟨c, hc, hf⟩ := h.resting
  obtain ⟨d, hd, hp, -⟩ := h.transient
  simp only [entries, hc, hf, hp, hd, List.reverse_append, List.reverse_reverse,
    List.map_append, List.append_assoc]
  exact (List.Sublist.refl _).append ((List.filter_sublist.map R.load).append (List.Sublist.refl _))

omit [LinearOrder D] in
theorem entries_filter :
    (q'.entries R).filter (fun e => !R.skip e) = (q.entries R).filter (fun e => !R.skip e) := by
  obtain ⟨c, hc, hf⟩ := h.resting
  obtain ⟨d, hd, hp, -⟩ := h.transient
  have hcomp : ∀ l : List O, (l.map R.load).filter (fun e => !R.skip e) =
      (l.filter (fun o => !R.skip (R.load o))).map R.load := by
    intro l
    rw [List.filter_map]
    rfl
  simp only [entries, hc, hf, hp, hd, List.reverse_append, List.reverse_reverse,
    List.map_append, List.append_assoc, List.filter_append, hcomp, List.filter_filter,
    Bool.and_self]

omit [LinearOrder D] in
theorem entries_eq (hskip : ∀ e, R.skip e = false) : q'.entries R = q.entries R := by
  have hall : ∀ l : List E, l.filter (fun e => !R.skip e) = l :=
    fun l => List.filter_eq_self.mpr (fun e _ => by rw [hskip]; rfl)
  have hfilter := h.entries_filter
  rwa [hall, hall] at hfilter

theorem live_entries :
    (q'.entries R).filter (fun e => R.Live e) = (q.entries R).filter (fun e => R.Live e) := by
  have hlive : ∀ l : List E, l.filter (fun e => R.Live e) =
      (l.filter (fun e => !R.skip e)).filter (fun e => R.Live e) := by
    intro l
    rw [List.filter_filter]
    refine List.filter_congr ?_
    intro e _
    by_cases hl : R.Live e
    · simp [hl, hl.2]
    · simp [hl]
  rw [hlive, h.entries_filter, ← hlive]

omit [LinearOrder D] in
theorem sum_booked {W : Type} [AddCommMonoid W] (w : E → W) (hw : ∀ o, w (R.load o) = 0) :
    (q'.booked.map w).sum = (q.booked.map w).sum := by
  obtain ⟨c, hc, hf⟩ := h.resting
  obtain ⟨d, hd, hp, -⟩ := h.transient
  have hzero : ∀ l : List O, ((l.map R.load).map w).sum = 0 := by
    intro l
    rw [List.map_map]
    exact List.sum_eq_zero (by
      intro x hx
      obtain ⟨o, -, rfl⟩ := List.mem_map.mp hx
      exact hw o)
  simp only [booked, hf, hp, hd, List.reverse_append, List.reverse_reverse,
    List.map_append, List.sum_append, hzero]
  abel

end Advance

/-! ## What is selected -/

/-- The front of the resting lane is at least as good as every live resting entry. -/
theorem WF.resting_best (hq : q.WF R ordered isBuy) {r : E} (hr : q.fetched.head? = some r) :
    ∀ e ∈ q.fetched.reverse ++ q.iterator.map R.load, R.Live e →
      NoBetter ordered isBuy (R.price e) (R.price r) := by
  obtain ⟨tail, hf⟩ : ∃ tail, q.fetched = r :: tail := List.head?_eq_some_iff.mp hr
  intro e he hl
  rcases List.mem_append.mp he with he | he
  · rw [hf, List.mem_reverse] at he
    rcases List.mem_cons.mp he with rfl | he
    · exact NoBetter.refl isBuy _
    · exact absurd (hq.done e (by rw [hf]; exact he)) hl.1
  · have hsorted := (List.pairwise_append.mp hq.resting_sorted).2.2
    exact hsorted r (by rw [hf, List.mem_reverse]; exact List.mem_cons_self) e he

/-- The front of the transient lane is at least as good as every live transient entry. -/
theorem WF.transient_best (hq : q.WF R ordered isBuy) {t : E} (ht : q.pending.head? = some t) :
    ∀ e ∈ q.passed ++ q.pending, R.Live e → NoBetter ordered isBuy (R.price e) (R.price t) := by
  obtain ⟨tail, hf⟩ : ∃ tail, q.pending = t :: tail := List.head?_eq_some_iff.mp ht
  intro e he hl
  rcases List.mem_append.mp he with he | he
  · exact absurd hl (hq.passed e he)
  · have hsorted := hq.transient_sorted
    rw [hf] at he hsorted
    rcases List.mem_cons.mp he with rfl | he
    · exact NoBetter.refl isBuy _
    · exact (List.pairwise_cons.mp hsorted).1 e he

variable {r : Option E}

/-- A fetch loads the next order that is not skipped. -/
theorem fetch_spec (hq : q.WF R ordered isBuy) (hdone : ∀ e ∈ q.fetched, R.remaining e = 0)
    (h : q.fetch R = (r, q')) :
    q'.WF R ordered isBuy ∧ Advance R q q' ∧
      (r = none → q'.iterator = [] ∧ ∀ e ∈ q'.fetched, R.remaining e = 0) ∧
      ∀ e, r = some e → q'.fetched.head? = some e ∧ (∃ o, e = R.load o) ∧
        q'.iterator.length < q.iterator.length := by
  obtain ⟨next, rest, hnext⟩ : ∃ next rest, nextUnskipped R q.iterator = (next, rest) := ⟨_, _, rfl⟩
  simp only [fetch, hnext] at h
  cases next with
  | none =>
    obtain ⟨rfl, hskip⟩ := nextUnskipped_none hnext
    simp only [Prod.mk.injEq] at h
    obtain ⟨rfl, rfl⟩ := h
    have hall : q.iterator.filter (fun o => !R.skip (R.load o)) = [] := by
      rw [List.filter_eq_nil_iff]
      intro o ho
      simp [hskip o ho]
    refine ⟨⟨hq.done, hq.unskipped, hq.passed, ?_, hq.transient_sorted⟩,
      ⟨⟨q.iterator, (List.append_nil _).symm, by rw [hall]; rfl⟩,
        ⟨[], rfl, (List.append_nil _).symm, List.forall_mem_nil _⟩⟩,
      fun _ => ⟨rfl, hdone⟩, fun e he => nomatch he⟩
    simp only [List.map_nil, List.append_nil]
    exact (List.pairwise_append.mp hq.resting_sorted).1
  | some e =>
    obtain ⟨skipped, o, hit, hskip, rfl, hun⟩ := nextUnskipped_some hnext
    simp only [Prod.mk.injEq] at h
    obtain ⟨rfl, rfl⟩ := h
    have hall : (skipped ++ [o]).filter (fun o => !R.skip (R.load o)) = [o] := by
      rw [List.filter_append, List.filter_eq_nil_iff.mpr (by
        intro x hx
        simp [hskip x hx])]
      simp [hun]
    have hadv : Advance R q { q with fetched := R.load o :: q.fetched, iterator := rest } :=
      ⟨⟨skipped ++ [o], by rw [hit]; simp, by rw [hall]; rfl⟩,
        ⟨[], rfl, (List.append_nil _).symm, List.forall_mem_nil _⟩⟩
    refine ⟨⟨hdone, ?_, hq.passed, ?_, hq.transient_sorted⟩, hadv, ?_, ?_⟩
    · exact List.forall_mem_cons.mpr ⟨hun, hq.unskipped⟩
    · have hsorted := hq.resting_sorted
      rw [hit] at hsorted
      refine hsorted.sublist ?_
      simp only [List.reverse_cons, List.map_append, List.map_cons, List.append_assoc,
        List.singleton_append]
      exact (List.Sublist.refl _).append (List.sublist_append_right _ _)
    · intro hnone
      exact nomatch hnone
    · intro e he
      cases he
      refine ⟨rfl, ⟨o, rfl⟩, ?_⟩
      rw [hit]
      simp only [List.length_append, List.length_cons]
      omega

theorem restingOrder_spec (hq : q.WF R ordered isBuy) (h : q.restingOrder R = (r, q')) :
    q'.WF R ordered isBuy ∧ Advance R q q' ∧
      (r = none → q'.iterator = [] ∧ ∀ e ∈ q'.fetched, R.remaining e = 0) ∧
      ∀ e, r = some e → q'.fetched.head? = some e ∧
        (R.remaining e = 0 → (∃ o, e = R.load o) ∧ q'.iterator.length < q.iterator.length) := by
  cases hcase : q.fetched with
  | nil =>
    simp only [restingOrder, hcase] at h
    obtain ⟨hwf, hadv, hnone, hsome⟩ := fetch_spec hq (by rw [hcase]; exact List.forall_mem_nil _) h
    exact ⟨hwf, hadv, hnone, fun e he => ⟨(hsome e he).1, fun _ => (hsome e he).2⟩⟩
  | cons e tail =>
    simp only [restingOrder, hcase] at h
    by_cases h0 : R.remaining e = 0
    · rw [if_pos h0] at h
      have htail := hq.done
      rw [hcase] at htail
      have hdone : ∀ x ∈ q.fetched, R.remaining x = 0 := by
        rw [hcase]
        exact List.forall_mem_cons.mpr ⟨h0, htail⟩
      obtain ⟨hwf, hadv, hnone, hsome⟩ := fetch_spec hq hdone h
      exact ⟨hwf, hadv, hnone, fun e he => ⟨(hsome e he).1, fun _ => (hsome e he).2⟩⟩
    · rw [if_neg h0] at h
      simp only [Prod.mk.injEq] at h
      obtain ⟨rfl, rfl⟩ := h
      refine ⟨hq, Advance.refl q, fun hnone => (nomatch hnone), ?_⟩
      intro x hx
      cases hx
      exact ⟨by rw [hcase]; rfl, fun hzero => absurd hzero h0⟩

theorem transientOrder_spec (hq : q.WF R ordered isBuy) {t : Option E}
    (h : q.transientOrder R = (t, q')) :
    q'.WF R ordered isBuy ∧ Advance R q q' ∧ q'.fetched = q.fetched ∧
      q'.iterator = q.iterator ∧ t = q'.pending.head? ∧ ∀ e, t = some e → R.Live e := by
  obtain ⟨dropped, hp, hd, hdead, hlive⟩ := dropDone_spec (R := R) q.passed q.pending
  simp only [transientOrder, Prod.mk.injEq] at h
  obtain ⟨rfl, rfl⟩ := h
  refine ⟨⟨hq.done, hq.unskipped, ?_, hq.resting_sorted, ?_⟩,
    ⟨⟨[], rfl, rfl⟩, ⟨dropped, hp, hd, hdead⟩⟩, rfl, rfl, rfl, ?_⟩
  · rw [hd]
    exact List.forall_mem_append.mpr ⟨hq.passed, hdead⟩
  · have hsorted := hq.transient_sorted
    rw [hp] at hsorted
    exact (List.pairwise_append.mp hsorted).2.1
  · intro e he
    exact hlive e he

/-- The front of a lane is what is matched next: at least as good as every live entry. With
    nothing remaining it has just been fetched from the iterator. -/
def Selected (R : Reader O E D) (ordered : Prop) (isBuy : Bool) (iterator : List O) (q : Queue O E)
    (l : Lane) : Prop :=
  ∃ c, q.current l = some c ∧ R.skip c = false ∧
    (∀ e ∈ q.entries R, R.Live e → NoBetter ordered isBuy (R.price e) (R.price c)) ∧
    (R.remaining c = 0 → (∃ o, c = R.load o) ∧ q.iterator.length < iterator.length)

/-- **SELECTION**: the cursors only move over entries that are not live; without a
    selected lane nothing live is left. -/
theorem select_spec (hq : q.WF R ordered isBuy) {lane : Option Lane}
    (h : q.select R isBuy = (lane, q')) :
    q'.WF R ordered isBuy ∧ Advance R q q' ∧
      (lane = none → ∀ e ∈ q'.entries R, ¬R.Live e) ∧
      ∀ l, lane = some l → Selected R ordered isBuy q.iterator q' l := by
  obtain ⟨r, q₁, hr⟩ : ∃ r q₁, q.restingOrder R = (r, q₁) := ⟨_, _, rfl⟩
  obtain ⟨t, q₂, ht⟩ : ∃ t q₂, q₁.transientOrder R = (t, q₂) := ⟨_, _, rfl⟩
  obtain ⟨hwf₁, hadv₁, hrnone, hrsome⟩ := restingOrder_spec hq hr
  obtain ⟨hwf₂, hadv₂, hfet, hiter, htq, htlive⟩ := transientOrder_spec hwf₁ ht
  have hrest : r = none → ∀ e ∈ q₂.fetched.reverse ++ q₂.iterator.map R.load, ¬R.Live e := by
    intro hr0 e he hl
    obtain ⟨hit, hdone⟩ := hrnone hr0
    rw [hiter, hit, List.map_nil, List.append_nil, List.mem_reverse, hfet] at he
    exact hl.1 (hdone e he)
  have htran : t = none → ∀ e ∈ q₂.passed ++ q₂.pending, ¬R.Live e := by
    intro ht0 e he hl
    have hnil : q₂.pending = [] := List.head?_eq_none_iff.mp (htq.symm.trans ht0)
    rw [hnil, List.append_nil] at he
    exact hwf₂.passed e he hl
  have htfront : ∀ e, t = some e → q₂.pending.head? = some e := fun e he => htq ▸ he
  rw [← hfet, ← hiter] at hrsome
  -- the front of a lane is selected if nothing live of the other lane is better
  have hresting : ∀ e, r = some e →
      (∀ x ∈ q₂.passed ++ q₂.pending, R.Live x → NoBetter ordered isBuy (R.price x) (R.price e)) →
      Selected R ordered isBuy q.iterator q₂ .resting := by
    intro e he hbetter
    obtain ⟨hfront, hshort⟩ := hrsome e he
    exact ⟨e, hfront, hwf₂.unskipped e (List.mem_of_mem_head? hfront),
      List.forall_mem_append.mpr ⟨hwf₂.resting_best hfront, hbetter⟩, hshort⟩
  have htransient : ∀ e, t = some e →
      (∀ x ∈ q₂.fetched.reverse ++ q₂.iterator.map R.load, R.Live x →
        NoBetter ordered isBuy (R.price x) (R.price e)) →
      Selected R ordered isBuy q.iterator q₂ .transient := by
    intro e he hbetter
    exact ⟨e, htfront e he, (htlive e he).2,
      List.forall_mem_append.mpr ⟨hbetter, hwf₂.transient_best (htfront e he)⟩,
      fun h0 => absurd h0 (htlive e he).1⟩
  have hone : ∀ l, Selected R ordered isBuy q.iterator q₂ l → q₂.WF R ordered isBuy ∧ Advance R q q₂ ∧
      (some l = none → ∀ e ∈ q₂.entries R, ¬R.Live e) ∧
      ∀ l', some l = some l' → Selected R ordered isBuy q.iterator q₂ l' := by
    intro l hl
    refine ⟨hwf₂, hadv₁.trans hadv₂, nofun, ?_⟩
    rintro l' ⟨⟩
    exact hl
  simp only [select, hr, ht] at h
  cases r with
  | none =>
    cases t with
    | none =>
      cases h
      exact ⟨hwf₂, hadv₁.trans hadv₂,
        fun _ => List.forall_mem_append.mpr ⟨hrest rfl, htran rfl⟩, nofun⟩
    | some t =>
      cases h
      exact hone _ (htransient t rfl fun x hx hxl => absurd hxl (hrest rfl x hx))
  | some r =>
    have hfr := (hrsome r rfl).1
    cases t with
    | none =>
      cases h
      exact hone _ (hresting r rfl fun x hx hxl => absurd hxl (htran rfl x hx))
    | some t =>
      by_cases hb : StrictlyBetter isBuy (R.price t) (R.price r)
      · simp only [if_pos hb] at h
        cases h
        exact hone _ (htransient t rfl
          fun x hx hxl => (hwf₂.resting_best hfr x hx hxl).trans hb.noBetter)
      · simp only [if_neg hb] at h
        cases h
        exact hone _ (hresting r rfl fun x hx hxl =>
          (hwf₂.transient_best (htfront t rfl) x hx hxl).trans (noBetter_of_not hb))

/-! ## Writing to the selected entry -/

variable {f : E → E} {l : Lane} {c : E}

omit [LinearOrder D] [Zero D] in
theorem current_modify (h : q.current l = some c) : (q.modify f l).current l = some (f c) := by
  cases l with
  | resting | transient =>
    obtain ⟨tail, hf⟩ := List.head?_eq_some_iff.mp h
    simp [modify, current, hf]

omit [LinearOrder D] [Zero D] in
theorem iterator_modify : (q.modify f l).iterator = q.iterator := by
  cases l
  · rfl
  · rfl

omit [LinearOrder D] [Zero D] in
theorem map_transient_modify {α : Type} {g : E → α} (hg : ∀ e, g (f e) = g e) (l : Lane) :
    ((q.modify f l).passed ++ (q.modify f l).pending).map g = (q.passed ++ q.pending).map g := by
  cases l with
  | resting => rfl
  | transient =>
    show (q.passed ++ q.pending.modifyHead f).map g = _
    rw [List.map_append, List.map_append]
    cases q.pending with
    | nil => rfl
    | cons e rest => rw [List.modifyHead_cons, List.map_cons, List.map_cons, hg]

omit [LinearOrder D] [Zero D] in
/-- The current entry of a lane has a place in the two queues, whatever stands between
    them. -/
theorem modify_between (between : List E) (h : q.current l = some c) :
    ∃ pre post, q.fetched.reverse ++ between ++ (q.passed ++ q.pending) = pre ++ c :: post ∧
      (q.modify f l).fetched.reverse ++ between ++
        ((q.modify f l).passed ++ (q.modify f l).pending) = pre ++ f c :: post := by
  cases l with
  | resting =>
    obtain ⟨tail, hf⟩ := List.head?_eq_some_iff.mp h
    refine ⟨tail.reverse, between ++ (q.passed ++ q.pending), ?_, ?_⟩
    · simp [hf]
    · simp [modify, hf]
  | transient =>
    obtain ⟨tail, hf⟩ := List.head?_eq_some_iff.mp h
    refine ⟨q.fetched.reverse ++ between ++ q.passed, tail, ?_, ?_⟩
    · simp [hf]
    · simp [modify, hf]

omit [LinearOrder D] [Zero D] in
theorem entries_modify (h : q.current l = some c) :
    ∃ pre post, q.entries R = pre ++ c :: post ∧ (q.modify f l).entries R = pre ++ f c :: post := by
  have hiterator : (q.modify f l).iterator = q.iterator := by cases l <;> rfl
  rw [entries, entries, hiterator]
  exact modify_between (q.iterator.map R.load) h

omit [LinearOrder D] [Zero D] in
theorem booked_modify (h : q.current l = some c) :
    ∃ pre post, q.booked = pre ++ c :: post ∧ (q.modify f l).booked = pre ++ f c :: post := by
  have hplace := modify_between (f := f) [] h
  rwa [List.append_nil, List.append_nil] at hplace

/-- The prices of the live entries. -/
def livePrices (R : Reader O E D) (q : Queue O E) : List D :=
  ((q.entries R).filter (fun e => R.Live e)).map R.price

theorem length_livePrices_le : (q.livePrices R).length ≤ (q.entries R).length := by
  rw [livePrices, List.length_map]
  exact List.length_filter_le _ _

omit [LinearOrder D] in
theorem Advance.transient_eq (h : Advance R q q') :
    q'.passed ++ q'.pending = q.passed ++ q.pending := by
  obtain ⟨dropped, hp, hd, -⟩ := h.transient
  rw [hp, hd, List.append_assoc]

theorem Advance.livePrices_eq (h : Advance R q q') : q'.livePrices R = q.livePrices R := by
  rw [livePrices, h.live_entries]
  rfl

/-- Rewriting an entry so that it is no longer live takes it out of the live prices, if
    it was there. -/
theorem livePrices_retire (h : q.current l = some c) (hdead : ¬R.Live (f c)) :
    ((q.modify f l).livePrices R).Sublist (q.livePrices R) ∧
      (R.Live c → ((q.modify f l).livePrices R).length < (q.livePrices R).length) := by
  obtain ⟨pre, post, hent, hent'⟩ := entries_modify (R := R) (f := f) h
  simp only [livePrices, hent, hent', List.filter_append, List.filter_cons, hdead,
    decide_false, Bool.false_eq_true, if_false, List.map_append]
  by_cases hc : R.Live c
  · simp only [hc, decide_true, if_true, List.map_cons]
    refine ⟨(List.Sublist.refl _).append (List.sublist_cons_self _ _), fun _ => ?_⟩
    simp only [List.length_append, List.length_cons]
    omega
  · simp only [hc, decide_false, Bool.false_eq_true, if_false]
    exact ⟨List.Sublist.refl _, fun hlive => absurd hlive not_false⟩

/-- A rewrite that keeps the price and whether the entry is skipped keeps the queues in
    order. -/
theorem WF.modify (hq : q.WF R ordered isBuy) (h : q.current l = some c)
    (hprice : R.price (f c) = R.price c) (hskip : R.skip (f c) = R.skip c) :
    (q.modify f l).WF R ordered isBuy := by
  cases l with
  | resting =>
    obtain ⟨tail, hf⟩ := List.head?_eq_some_iff.mp h
    have hm : (q.modify f .resting).fetched = f c :: tail := by simp [Queue.modify, hf]
    refine ⟨?_, ?_, hq.passed, ?_, hq.transient_sorted⟩
    · have hdone := hq.done
      rw [hf] at hdone
      rwa [hm]
    · have hunskipped := hq.unskipped
      rw [hf, List.forall_mem_cons] at hunskipped
      rwa [hm, List.forall_mem_cons, hskip]
    · have hsorted := hq.resting_sorted
      rw [← List.pairwise_map (f := R.price) (R := fun x y => NoBetter ordered isBuy y x)] at hsorted ⊢
      rw [hm]
      rw [hf] at hsorted
      simp only [List.reverse_cons, List.map_append, List.map_singleton, hprice] at hsorted ⊢
      exact hsorted
  | transient =>
    obtain ⟨tail, hf⟩ := List.head?_eq_some_iff.mp h
    have hm : (q.modify f .transient).pending = f c :: tail := by simp [Queue.modify, hf]
    refine ⟨hq.done, hq.unskipped, hq.passed, hq.resting_sorted, ?_⟩
    have hsorted := hq.transient_sorted
    rw [hm]
    rw [hf] at hsorted
    obtain ⟨hhead, htail⟩ := List.pairwise_cons.mp hsorted
    refine List.pairwise_cons.mpr ⟨?_, htail⟩
    intro e he
    rw [hprice]
    exact hhead e he

end Queue

end TwoQueue
