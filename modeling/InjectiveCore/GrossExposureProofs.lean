import Mathlib

/-!
# Signed exposures — net, gross and a cap on the gross

Accounts hold signed exposures, long positive and short negative, and a trade adds a
signed quantity to one account. Exposures add up pointwise, so the outcome of a batch
does not depend on the order of its trades. What does depend on the exposure at hand is
how much the **gross** grows:

- `gross_add_single`: a trade moves the gross by the `growth` of its own account, and
  `net_add_single` says that it moves the net by its quantity.
- `growth_cases`: a trade cut short either only closes, or grows the gross by no more
  than the whole trade would. From it follow `one_leg_within_cap` and
  `two_legs_within_cap`: if both legs of a match were admitted at full size under a
  cap, the legs actually traded respect it too.
-/

namespace GrossExposure

section Accounts

variable {G : Type} [AddCommGroup G] [LinearOrder G]

/-- How much the size of the exposure `p` grows when `x` is added to it. -/
def growth (p x : G) : G := |p + x| - |p|

theorem growth_neg (p x : G) : growth p (-x) = growth (-p) x := by
  have h : p + -x = -(-p + x) := by abel
  rw [growth, growth, h, abs_neg, abs_neg]

theorem growth_back (p x : G) : growth p x + growth (p + x) (-x) = 0 := by
  rw [growth, growth, add_neg_cancel_right, sub_add_sub_cancel, sub_self]

variable {K : Type} [Fintype K]

/-- The sum of all exposures. -/
def net (v : K → G) : G := ∑ k, v k

/-- The sum of the sizes of all exposures. -/
def gross (v : K → G) : G := ∑ k, |v k|

omit [LinearOrder G] in
theorem net_add (v w : K → G) : net (v + w) = net v + net w := Finset.sum_add_distrib

omit [LinearOrder G] in
theorem net_neg (v : K → G) : net (-v) = -net v := Finset.sum_neg_distrib _

variable [DecidableEq K]

omit [LinearOrder G] [Fintype K] in
theorem update_add_single (v : K → G) (k : K) (x : G) :
    Function.update v k (v k + x) = v + Pi.single k x := by
  funext j
  by_cases hj : j = k
  · subst hj
    rw [Function.update_self, Pi.add_apply, Pi.single_eq_same]
  · rw [Function.update_of_ne hj, Pi.add_apply, Pi.single_eq_of_ne hj, add_zero]

omit [LinearOrder G] in
theorem net_add_single (v : K → G) (k : K) (x : G) : net (v + Pi.single k x) = net v + x := by
  rw [net_add, net, net, Finset.sum_pi_single' k x Finset.univ, if_pos (Finset.mem_univ k)]

theorem gross_add_single (v : K → G) (k : K) (x : G) :
    gross (v + Pi.single k x) = gross v + growth (v k) x := by
  have hpoint : ∀ j, |(v + Pi.single k x : K → G) j| =
      |v j| + (Pi.single k (growth (v k) x) : K → G) j := by
    intro j
    by_cases hj : j = k
    · subst hj
      rw [Pi.add_apply, Pi.single_eq_same, Pi.single_eq_same, growth]
      abel
    · rw [Pi.add_apply, Pi.single_eq_of_ne hj, Pi.single_eq_of_ne hj, add_zero, add_zero]
  simp only [gross, hpoint, Finset.sum_add_distrib]
  rw [Finset.sum_pi_single' k _ Finset.univ, if_pos (Finset.mem_univ k)]

/-! ### Lists of trades -/

/-- The exposures a list of trades adds up to. -/
def exposures (ts : List (K × G)) : K → G := (ts.map (fun t => Pi.single t.1 t.2)).sum

omit [LinearOrder G] [Fintype K] in
theorem exposures_cons (t : K × G) (ts : List (K × G)) :
    exposures (t :: ts) = Pi.single t.1 t.2 + exposures ts := by
  rw [exposures, List.map_cons, List.sum_cons]
  rfl

omit [LinearOrder G] [Fintype K] in
theorem exposures_append (ts us : List (K × G)) :
    exposures (ts ++ us) = exposures ts + exposures us := by
  rw [exposures, List.map_append, List.sum_append]
  rfl

omit [LinearOrder G] [Fintype K] in
theorem exposures_perm {ts us : List (K × G)} (h : ts.Perm us) :
    exposures ts = exposures us :=
  (h.map _).sum_eq

omit [LinearOrder G] [Fintype K] in
theorem exposures_neg (ts : List (K × G)) :
    exposures (ts.map (fun t => (t.1, -t.2))) = -exposures ts := by
  induction ts with
  | nil => exact neg_zero.symm
  | cons t rest ih =>
    rw [List.map_cons, exposures_cons, exposures_cons, ih, Pi.single_neg, neg_add]

omit [LinearOrder G] [Fintype K] in
theorem exposures_filter {α : Type} {trade : α → K × G} {p : α → Bool} {as : List α}
    (h : ∀ a ∈ as, p a = false → (trade a).2 = 0) :
    exposures ((as.filter p).map trade) = exposures (as.map trade) := by
  induction as with
  | nil => rfl
  | cons a rest ih =>
    have hrest := ih (fun x hx => h x (List.mem_cons_of_mem _ hx))
    cases hp : p a with
    | true => rw [List.filter_cons_of_pos hp, List.map_cons, List.map_cons, exposures_cons,
        exposures_cons, hrest]
    | false =>
      rw [List.filter_cons_of_neg (by rw [hp]; exact Bool.false_ne_true), hrest,
        List.map_cons, exposures_cons, h a List.mem_cons_self hp, Pi.single_zero,
        zero_add]

omit [LinearOrder G] in
theorem net_exposures (ts : List (K × G)) : net (exposures ts) = (ts.map Prod.snd).sum := by
  induction ts with
  | nil => exact Finset.sum_const_zero
  | cons t rest ih =>
    rw [exposures_cons, add_comm, net_add_single, ih, List.map_cons, List.sum_cons, add_comm]

end Accounts

/-! ## Trades cut short -/

section Ordered

variable {G : Type} [AddCommGroup G] [LinearOrder G] [IsOrderedAddMonoid G]

theorem growth_le (p : G) {x : G} (h : 0 ≤ x) : growth p x ≤ x := by
  have htri := abs_add_le p x
  rw [abs_of_nonneg h] at htri
  rw [growth, sub_le_iff_le_add, add_comm x]
  exact htri

theorem growth_of_closing {p x : G} (hx : 0 ≤ x) (h : p + x ≤ 0) : growth p x = -x := by
  have hp : p ≤ 0 := le_trans (le_add_of_nonneg_right hx) h
  rw [growth, abs_of_nonpos h, abs_of_nonpos hp]
  abel

theorem growth_le_growth {p q x : G} (h : 0 ≤ p + q) (hle : q ≤ x) : growth p q ≤ growth p x := by
  have hx : p + q ≤ p + x := add_le_add_right hle p
  rw [growth, growth, abs_of_nonneg h, abs_of_nonneg (h.trans hx)]
  exact sub_le_sub_right hx |p|

/-- **A TRADE CUT SHORT** only closes, or grows the gross by no more than the whole. -/
theorem growth_cases (p : G) {q x : G} (hq : 0 ≤ q) (hle : q ≤ x) :
    growth p q = -q ∨ growth p q ≤ growth p x := by
  rcases le_total (p + q) 0 with h | h
  · exact Or.inl (growth_of_closing hq h)
  · exact Or.inr (growth_le_growth h hle)

end Ordered

/-! ## A cap on the gross at a price -/

section Cap

variable {𝕜 : Type} [Field 𝕜] [LinearOrder 𝕜] [IsStrictOrderedRing 𝕜]

/-- A quantity `x` was admitted on top of `N`: it shrinks the gross, or fits under the
    cap. -/
def Admitted (N m cap p x : 𝕜) : Prop := growth p x * m < 0 ∨ N + growth p x * m ≤ cap

variable {N m cap p r x y q : 𝕜}

theorem one_leg_within_cap (hm : 0 ≤ m) (hq : 0 ≤ q) (hx : q ≤ x)
    (h : Admitted N m cap p x) : N + growth p q * m ≤ max cap N := by
  rcases growth_cases p hq hx with hclose | hgrow
  · refine le_max_of_le_right ?_
    rw [hclose]
    nlinarith
  · have hle : growth p q * m ≤ growth p x * m := mul_le_mul_of_nonneg_right hgrow hm
    rcases h with h | h
    · exact le_max_of_le_right (by linarith)
    · exact le_max_of_le_left (by linarith)

theorem two_legs_within_cap (hm : 0 ≤ m) (hq : 0 ≤ q) (hx : q ≤ x) (hy : q ≤ y)
    (h₁ : Admitted N m cap p x) (h₂ : Admitted (N + growth p x * m) m cap r y) :
    N + growth p q * m + growth r q * m ≤ max cap N := by
  -- a leg that only closes pays for whatever the other leg opens
  have hpay : ∀ a b : 𝕜, growth a q = -q → N + growth a q * m + growth b q * m ≤ N := by
    intro a b ha
    have hb := mul_le_mul_of_nonneg_right (growth_le b hq) hm
    rw [ha]
    linarith
  rcases growth_cases p hq hx with hclose | hgrow
  · exact le_max_of_le_right (hpay p r hclose)
  · rcases growth_cases r hq hy with hclose' | hgrow'
    · refine le_max_of_le_right ?_
      have h := hpay r p hclose'
      linarith
    · have hp := mul_le_mul_of_nonneg_right hgrow hm
      have hr := mul_le_mul_of_nonneg_right hgrow' hm
      rcases h₂ with h₂ | h₂
      · have h := one_leg_within_cap hm hq hx h₁
        linarith
      · exact le_max_of_le_left (by linarith)

end Cap

end GrossExposure
