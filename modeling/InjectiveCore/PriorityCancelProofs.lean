import Mathlib

/-!
# Cancelling by priority — making room from the back of a queue

Entries wait in a queue by rank, the lowest served first, and a limited quantity `Q`
is there to serve them. Some entries are **marked**: each of them must fit, that is,
the weight served up to and with its rank may not exceed `Q` (`Fits`).

When a newcomer takes weight away from the queue, room is made by going through the
entries from the back, the marked ones of a rank first, and dropping the marked ones
until the weight passed covers the excess. `ahead_kept_le` is the reason this is enough:
behind a marked entry that is kept, nothing of its own rank or better was passed except
marked entries, and those are gone.

The passage through the queue is a scan that may stop early, `scanUntil`; its rule is
`scanUntil_split`.
-/

namespace PriorityCancel

/-! ## Scans that stop early -/

section Scan

variable {σ α : Type}

/-- Fold `step` over a list up to the first entry at which `stop` holds. -/
def scanUntil (stop : σ → α → Bool) (step : σ → α → σ) : σ → List α → σ
  | s, [] => s
  | s, a :: l => if stop s a then s else scanUntil stop step (step s a) l

/-- A scan is the fold over a front part of the list, and what is left of the list is
    empty or starts with an entry that stopped it. -/
theorem scanUntil_split (stop : σ → α → Bool) (step : σ → α → σ) (s : σ) (l : List α) :
    ∃ front back, l = front ++ back ∧
      scanUntil stop step s l = front.foldl step s ∧
      ∀ a rest, back = a :: rest → stop (front.foldl step s) a = true := by
  induction l generalizing s with
  | nil => exact ⟨[], [], rfl, rfl, fun _ _ h => nomatch h⟩
  | cons a l ih =>
    by_cases hstop : stop s a = true
    · refine ⟨[], a :: l, rfl, ?_, ?_⟩
      · rw [scanUntil, if_pos hstop, List.foldl_nil]
      · intro b rest h
        cases h
        exact hstop
    · obtain ⟨front, back, rfl, hscan, hback⟩ := ih (step s a)
      refine ⟨a :: front, back, rfl, ?_, hback⟩
      rw [scanUntil, if_neg hstop, hscan, List.foldl_cons]

/-- A stop that does not depend on the state cuts the list at the first such entry. -/
theorem scanUntil_eq_foldl_takeWhile (stop : α → Bool) (step : σ → α → σ) (s : σ)
    (l : List α) :
    scanUntil (fun _ => stop) step s l = (l.takeWhile (fun a => !stop a)).foldl step s := by
  induction l generalizing s with
  | nil => rfl
  | cons a l ih =>
    cases hstop : stop a with
    | true =>
      rw [scanUntil, if_pos hstop, List.takeWhile_cons_of_neg (by simp [hstop]), List.foldl_nil]
    | false =>
      rw [scanUntil, if_neg (by simp [hstop]), ih,
        List.takeWhile_cons_of_pos (by simp [hstop]), List.foldl_cons]

/-- On a list on which a property is never regained, the entries before the first
    failure are all that have it. -/
theorem takeWhile_eq_filter {p : α → Bool} {l : List α}
    (h : l.Pairwise (fun a b => p b = true → p a = true)) :
    l.takeWhile p = l.filter p := by
  induction l with
  | nil => rfl
  | cons a l ih =>
    obtain ⟨hhead, htail⟩ := List.pairwise_cons.mp h
    by_cases ha : p a = true
    · rw [List.takeWhile_cons_of_pos ha, List.filter_cons_of_pos ha, ih htail]
    · rw [List.takeWhile_cons_of_neg ha, List.filter_cons_of_neg ha, eq_comm,
        List.filter_eq_nil_iff]
      exact fun b hb hpb => ha (hhead b hb hpb)

/-- In a list in which each entry is related to those behind it, the last one comes last. -/
theorem eq_or_rel_getLast {R : α → α → Prop} {l : List α} {x last : α} (h : l.Pairwise R)
    (hlast : l.getLast? = some last) (hx : x ∈ l) : x = last ∨ R x last := by
  obtain ⟨init, rfl⟩ := List.getLast?_eq_some_iff.mp hlast
  rcases List.mem_append.mp hx with hx | hx
  · exact .inr ((List.pairwise_append.mp h).2.2 x hx last (List.mem_singleton_self last))
  · exact .inl (List.mem_singleton.mp hx)

end Scan

/-! ## Weights -/

section Weight

variable {α D : Type} [AddCommGroup D] (weight : α → D)

/-- The weight of a list of entries. -/
def total (l : List α) : D := (l.map weight).sum

@[simp] theorem total_nil : total weight ([] : List α) = 0 := rfl

@[simp] theorem total_cons (a : α) (l : List α) :
    total weight (a :: l) = weight a + total weight l := by
  rw [total, total, List.map_cons, List.sum_cons]

@[simp] theorem total_append (l m : List α) :
    total weight (l ++ m) = total weight l + total weight m := by
  rw [total, total, total, List.map_append, List.sum_append]

variable {weight} {l : List α} {m : List α}

theorem total_perm (h : l.Perm m) : total weight l = total weight m := (h.map weight).sum_eq

theorem total_filter_add_total_filter_not (p : α → Bool) (l : List α) :
    total weight (l.filter p) + total weight (l.filter (fun x => !p x)) = total weight l := by
  rw [← total_append]
  exact total_perm (List.filter_append_perm p l)

variable [LinearOrder D] [IsOrderedAddMonoid D]

theorem total_nonneg (h : ∀ x ∈ l, 0 ≤ weight x) : 0 ≤ total weight l := by
  refine List.sum_nonneg ?_
  intro w hw
  obtain ⟨x, hx, rfl⟩ := List.mem_map.mp hw
  exact h x hx

theorem total_le_of_subset (hnodup : l.Nodup) (hsub : l ⊆ m) (h : ∀ x ∈ m, 0 ≤ weight x) :
    total weight l ≤ total weight m := by
  obtain ⟨l', hperm, hsublist⟩ := List.subperm_of_subset hnodup hsub
  rw [← total_perm hperm]
  refine (hsublist.map weight).sum_le_sum ?_
  intro w hw
  obtain ⟨x, hx, rfl⟩ := List.mem_map.mp hw
  exact h x hx

theorem eq_nil_of_total_le_zero (h : ∀ x ∈ l, 0 < weight x) (htotal : total weight l ≤ 0) :
    l = [] := by
  cases l with
  | nil => rfl
  | cons a l =>
    have hl : 0 ≤ total weight l :=
      total_nonneg (fun x hx => le_of_lt (h x (List.mem_cons_of_mem a hx)))
    rw [total_cons] at htotal
    exact absurd htotal (not_le.mpr (add_pos_of_pos_of_nonneg (h a List.mem_cons_self) hl))

end Weight

/-! ## Marked entries that fit -/

section Fits

variable {α ι D : Type} [LinearOrder ι] [AddCommGroup D] [LinearOrder D]
  (rank : α → ι) (weight : α → D) (marked : α → Bool)

/-- The weight served up to and with rank `i`. -/
def ahead (l : List α) (i : ι) : D := total weight (l.filter (fun x => decide (rank x ≤ i)))

/-- Every marked entry is served in full out of the quantity `Q`. -/
def Fits (Q : D) (l : List α) : Prop :=
  ∀ r ∈ l, marked r = true → ahead rank weight l (rank r) ≤ Q

/-- In the order of cancelling, `a` may come before `b`: it has the higher rank, or the
    same and the marked ones are first. -/
def Later (a b : α) : Prop :=
  rank b < rank a ∨ rank a = rank b ∧ (marked a = true ∨ marked b = false)

variable {rank weight marked}

omit [AddCommGroup D] [LinearOrder D] in
theorem Later.trans {a b c : α} (hab : Later rank marked a b) (hbc : Later rank marked b c) :
    Later rank marked a c := by
  rcases hab with hab | ⟨hab, hab'⟩ <;> rcases hbc with hbc | ⟨hbc, hbc'⟩
  · exact Or.inl (hbc.trans hab)
  · exact Or.inl (hbc ▸ hab)
  · exact Or.inl (hab ▸ hbc)
  · refine Or.inr ⟨hab.trans hbc, ?_⟩
    rcases hab' with ha | hb
    · exact Or.inl ha
    · exact Or.inr (hbc'.resolve_left (by simp [hb]))

variable {l m : List α}

omit [LinearOrder D] in
theorem ahead_perm (h : l.Perm m) (i : ι) :
    ahead rank weight l i = ahead rank weight m i := total_perm (h.filter _)

omit [LinearOrder D] in
theorem ahead_cons (a : α) (l : List α) (i : ι) :
    ahead rank weight (a :: l) i =
      (if rank a ≤ i then weight a else 0) + ahead rank weight l i := by
  rw [ahead, ahead]
  by_cases h : rank a ≤ i
  · rw [List.filter_cons_of_pos (by simpa using h), total_cons, if_pos h]
  · rw [List.filter_cons_of_neg (by simpa using h), if_neg h, zero_add]

theorem Fits.perm {Q : D} (h : Fits rank weight marked Q l) (hperm : l.Perm m) :
    Fits rank weight marked Q m := by
  intro r hr hmarked
  rw [← ahead_perm hperm]
  exact h r (hperm.mem_iff.mpr hr) hmarked

variable [IsOrderedAddMonoid D]

theorem ahead_le_of_subset (hnodup : l.Nodup) (hsub : l ⊆ m) (h : ∀ x ∈ m, 0 ≤ weight x)
    (i : ι) : ahead rank weight l i ≤ ahead rank weight m i := by
  refine total_le_of_subset (hnodup.filter _) ?_ (fun x hx => h x (List.mem_of_mem_filter hx))
  intro x hx
  rw [List.mem_filter] at hx ⊢
  exact ⟨hsub hx.1, hx.2⟩

theorem ahead_le_total (h : ∀ x ∈ l, 0 ≤ weight x) (i : ι) :
    ahead rank weight l i ≤ total weight l := by
  rw [← total_filter_add_total_filter_not (fun x => decide (rank x ≤ i)) l]
  exact le_add_of_nonneg_right (total_nonneg (fun x hx => h x (List.mem_of_mem_filter hx)))

/-- **ROOM FROM THE BACK**: the queue is passed from the back as `front ++ back`, and
    the marked entries of `front` are dropped. A marked entry of `back` then has at most
    the weight of `back` ahead of it. -/
theorem ahead_kept_le {front back kept : List α} {r : α}
    (hsorted : (front ++ back).Pairwise (Later rank marked)) (hnodup : kept.Nodup)
    (hdropped : ∀ x ∈ front, marked x = true → x ∉ kept) (hr : r ∈ back)
    (hmarked : marked r = true)
    (hpassed : ∀ x ∈ kept, rank x ≤ rank r → x ∈ front ++ back)
    (hnonneg : ∀ x ∈ back, 0 ≤ weight x) :
    ahead rank weight kept (rank r) ≤ total weight back := by
  refine total_le_of_subset (hnodup.filter _) ?_ hnonneg
  intro x hx
  obtain ⟨hkept, hrank⟩ := List.mem_filter.mp hx
  have hrank : rank x ≤ rank r := of_decide_eq_true hrank
  rcases List.mem_append.mp (hpassed x hkept hrank) with hfront | hback
  · -- an entry of the front comes before `r`: it is worse than `r` or marked
    rcases (List.pairwise_append.mp hsorted).2.2 x hfront r hr with hworse | ⟨-, hmx | hmr⟩
    · exact absurd hworse (not_lt.mpr hrank)
    · exact absurd hkept (hdropped x hfront hmx)
    · rw [hmarked] at hmr
      exact nomatch hmr
  · exact hback

end Fits

/-! ## How far the queue is passed -/

section Passed

variable {α D : Type} [AddCommGroup D] [LinearOrder D]

/-- The entries passed from the back: up to one at which `stop` holds, or until the
    weight passed, counted on from `checked`, covers `excess`. -/
def passed (weight : α → D) (stop : α → Bool) (excess : D) : D → List α → List α
  | _, [] => []
  | checked, x :: l =>
    if stop x then []
    else if excess ≤ checked + weight x then [x]
    else x :: passed weight stop excess (checked + weight x) l

/-- Either the excess is covered, or what was not passed is empty or starts with an
    entry that stopped it. -/
theorem passed_split (weight : α → D) (stop : α → Bool) (excess checked : D) (l : List α) :
    ∃ back, l = passed weight stop excess checked l ++ back ∧
      (excess ≤ checked + total weight (passed weight stop excess checked l) ∨
        ∀ a rest, back = a :: rest → stop a = true) := by
  induction l generalizing checked with
  | nil => exact ⟨[], rfl, Or.inr (fun _ _ h => nomatch h)⟩
  | cons x l ih =>
    by_cases hstop : stop x = true
    · refine ⟨x :: l, ?_, Or.inr ?_⟩
      · rw [passed, if_pos hstop, List.nil_append]
      · intro a rest h
        cases h
        exact hstop
    · by_cases hcovered : excess ≤ checked + weight x
      · refine ⟨l, ?_, Or.inl ?_⟩
        · rw [passed, if_neg hstop, if_pos hcovered, List.singleton_append]
        · rw [passed, if_neg hstop, if_pos hcovered, total_cons, total_nil, add_zero]
          exact hcovered
      · obtain ⟨back, hl, hend⟩ := ih (checked + weight x)
        refine ⟨back, ?_, ?_⟩
        · rw [passed, if_neg hstop, if_neg hcovered, List.cons_append, ← hl]
        · rw [passed, if_neg hstop, if_neg hcovered, total_cons, ← add_assoc]
          exact hend

end Passed

end PriorityCancel
