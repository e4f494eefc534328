import Mathlib

/-!
# Decimal arithmetic — one interface, a rounded and an exact instance

A program that computes with fixed-point decimals uses two kinds of operation.
Addition, subtraction and comparison are **exact**: the decimals are an ordered
additive group. The product and the quotient **round**. `DecArith` collects the
operations together with the few laws of the rounded ones that hold for every
rounding, so that code written once over `[DecArith D]` can be read twice:

- over `LegacyDec`, 18 fractional digits with round-half-even, it is what runs;
- over `ℚ`, where product and quotient are exact, it is the intended arithmetic.

What is specific to one reading is proved at that type: `mul_rat`, `quo_rat` turn
the operations into field arithmetic, and those of `LegacyDec` are integer rounding.
-/

/-! ## Rounding a natural quotient to the nearest integer, ties to even -/

namespace HalfEven

/-- The quotient `n / m` rounded to the nearest integer, a tie to the even one. -/
def roundHalfEven (n m : ℕ) : ℕ :=
  if 2 * (n % m) < m then n / m
  else if m < 2 * (n % m) then n / m + 1
  else if n / m % 2 = 0 then n / m
  else n / m + 1

/-- The rounded quotient is the floor or the floor plus one, the latter only
    when at least half a unit was cut off. -/
theorem roundHalfEven_cases (n m : ℕ) :
    (roundHalfEven n m = n / m ∧ 2 * (n % m) ≤ m) ∨
      (roundHalfEven n m = n / m + 1 ∧ m ≤ 2 * (n % m)) := by
  unfold roundHalfEven
  split
  · left; exact ⟨rfl, by omega⟩
  · split
    · right; exact ⟨rfl, by omega⟩
    · split
      · left; exact ⟨rfl, by omega⟩
      · right; exact ⟨rfl, by omega⟩

variable {m : ℕ}

theorem roundHalfEven_mul (hm : 0 < m) (k : ℕ) : roundHalfEven (k * m) m = k := by
  unfold roundHalfEven
  rw [Nat.mul_mod_left, if_pos (by omega), Nat.mul_div_cancel _ hm]

@[simp] theorem roundHalfEven_zero (m : ℕ) : roundHalfEven 0 m = 0 := by
  unfold roundHalfEven; simp

theorem roundHalfEven_mono (m : ℕ) {a b : ℕ} (h : a ≤ b) :
    roundHalfEven a m ≤ roundHalfEven b m := by
  have hq : a / m ≤ b / m := Nat.div_le_div_right h
  rcases Nat.eq_or_lt_of_le hq with heq | hlt
  · -- same floor: only the comparison with the half unit can differ
    have ha := Nat.div_add_mod a m
    have hb := Nat.div_add_mod b m
    rw [← heq] at hb
    unfold roundHalfEven
    rw [← heq]
    split_ifs <;> omega
  · rcases roundHalfEven_cases a m with ⟨ha, _⟩ | ⟨ha, _⟩ <;>
      rcases roundHalfEven_cases b m with ⟨hb, _⟩ | ⟨hb, _⟩ <;> omega

/-- Rounding of a signed quotient: on the absolute value, the sign put back. -/
def chopAndRound (d : ℤ) (m : ℕ) : ℤ :=
  if d < 0 then -(roundHalfEven d.natAbs m : ℤ) else roundHalfEven d.natAbs m

@[simp] theorem chopAndRound_zero (m : ℕ) : chopAndRound 0 m = 0 := by
  simp [chopAndRound]

theorem chopAndRound_neg (d : ℤ) (m : ℕ) : chopAndRound (-d) m = -chopAndRound d m := by
  unfold chopAndRound
  rcases lt_trichotomy d 0 with h | h | h
  · rw [if_neg (by omega), if_pos h, Int.natAbs_neg, neg_neg]
  · subst h; simp
  · rw [if_pos (by omega), if_neg (by omega), Int.natAbs_neg]

variable {d : ℤ}

theorem chopAndRound_of_nonneg (h : 0 ≤ d) (m : ℕ) :
    chopAndRound d m = roundHalfEven d.toNat m := by
  unfold chopAndRound
  rw [if_neg (by omega), show d.natAbs = d.toNat by omega]

theorem chopAndRound_nonneg (h : 0 ≤ d) (m : ℕ) : 0 ≤ chopAndRound d m := by
  rw [chopAndRound_of_nonneg h]; exact Int.natCast_nonneg _

theorem chopAndRound_mono (m : ℕ) {a b : ℤ} (h : a ≤ b) : chopAndRound a m ≤ chopAndRound b m := by
  rcases lt_or_ge a 0 with ha | ha
  · rcases lt_or_ge b 0 with hb | hb
    · unfold chopAndRound
      rw [if_pos ha, if_pos hb]
      have := roundHalfEven_mono m (show b.natAbs ≤ a.natAbs by omega)
      omega
    · have hb' := chopAndRound_nonneg hb m
      have ha' := chopAndRound_nonneg (show 0 ≤ -a by omega) m
      rw [chopAndRound_neg] at ha'
      omega
  · rw [chopAndRound_of_nonneg ha, chopAndRound_of_nonneg (by omega)]
    exact_mod_cast roundHalfEven_mono m (show a.toNat ≤ b.toNat by omega)

/-- Rounding adds at most half a unit. -/
theorem two_mul_chopAndRound_le (h : 0 ≤ d) (m : ℕ) : 2 * (chopAndRound d m * m) ≤ 2 * d + m := by
  rw [chopAndRound_of_nonneg h]
  have hdiv := Nat.div_add_mod d.toNat m
  have hcast : (d.toNat : ℤ) = d := Int.toNat_of_nonneg h
  rw [← hcast]
  norm_cast
  rcases roundHalfEven_cases d.toNat m with ⟨hr, -⟩ | ⟨hr, hhalf⟩
  · rw [hr]
    linarith [Nat.div_mul_le_self d.toNat m]
  · rw [hr]
    nlinarith

theorem chopAndRound_mul (hm : 0 < m) (k : ℤ) : chopAndRound (k * m) m = k := by
  rcases Int.eq_nat_or_neg k with ⟨n, rfl | rfl⟩
  · rw [chopAndRound_of_nonneg (by positivity),
      show ((n : ℤ) * m).toNat = n * m by norm_cast, roundHalfEven_mul hm]
  · rw [neg_mul, chopAndRound_neg, chopAndRound_of_nonneg (by positivity),
      show ((n : ℤ) * m).toNat = n * m by norm_cast, roundHalfEven_mul hm]

end HalfEven

/-! ## The interface -/

/-- Decimal arithmetic: an ordered additive group with a rounded product `mul`, a
    rounded quotient `quo` and the embedding `newDec` of the integers. The laws are
    those every rounding to nearest keeps. -/
class DecArith (D : Type) extends AddCommGroup D, LinearOrder D,
    IsOrderedAddMonoid D where
  /-- The product, rounded to the precision of `D`. -/
  mul : D → D → D
  /-- The quotient, rounded to the precision of `D`; `0` for a zero divisor. -/
  quo : D → D → D
  /-- An integer as a decimal. -/
  newDec : ℤ → D
  /-- The least integer not below. -/
  ceilInt : D → ℤ
  mul_newDec : ∀ (x : D) (n : ℤ), mul x (newDec n) = n • x
  protected mul_comm : ∀ x y : D, mul x y = mul y x
  protected mul_neg : ∀ x y : D, mul x (-y) = -mul x y
  protected mul_le_mul_right : ∀ x y z : D, x ≤ y → 0 ≤ z → mul x z ≤ mul y z
  newDec_le : ∀ m n : ℤ, m ≤ n → newDec m ≤ newDec n
  newDec_zero : newDec 0 = 0
  ceilInt_newDec : ∀ n : ℤ, ceilInt (newDec n) = n
  le_newDec_ceilInt : ∀ x : D, x ≤ newDec (ceilInt x)
  ceilInt_le : ∀ (x : D) (n : ℤ), x ≤ newDec n → ceilInt x ≤ n
  quo_two_between : ∀ s b : D, s ≤ b →
    s ≤ quo (b + s) (newDec 2) ∧ quo (b + s) (newDec 2) ≤ b

namespace DecArith

variable {D : Type} [DecArith D]

/-- The decimal one. -/
def one : D := newDec 1

/-- The integer part of a decimal, cut towards zero. -/
def truncateInt (x : D) : ℤ := if x < 0 then ceilInt x else -ceilInt (-x)

@[simp] protected theorem mul_zero (x : D) : mul x 0 = 0 := by
  have h := mul_newDec x 0
  rwa [newDec_zero, zero_smul] at h

@[simp] protected theorem zero_mul (x : D) : mul 0 x = 0 := by
  rw [DecArith.mul_comm, DecArith.mul_zero]

@[simp] protected theorem mul_one (x : D) : mul x one = x := by
  rw [one, mul_newDec, one_smul]

variable {x : D}

protected theorem mul_nonneg {y : D} (hx : 0 ≤ x) (hy : 0 ≤ y) : 0 ≤ mul x y := by
  have h := DecArith.mul_le_mul_right 0 x y hx hy
  rwa [DecArith.zero_mul] at h

theorem newDec_eq_zsmul (n : ℤ) : (newDec n : D) = n • one := by
  rw [← mul_newDec, DecArith.mul_comm, DecArith.mul_one]

theorem newDec_add (m n : ℤ) : (newDec (m + n) : D) = newDec m + newDec n := by
  rw [newDec_eq_zsmul, add_smul, ← newDec_eq_zsmul, ← newDec_eq_zsmul]

theorem newDec_neg (n : ℤ) : (newDec (-n) : D) = -newDec n := by
  rw [newDec_eq_zsmul, neg_smul, ← newDec_eq_zsmul]

theorem newDec_sub (m n : ℤ) : (newDec (m - n) : D) = newDec m - newDec n := by
  rw [sub_eq_add_neg, newDec_add, newDec_neg, sub_eq_add_neg]

theorem newDec_nonneg {n : ℤ} (h : 0 ≤ n) : (0 : D) ≤ newDec n :=
  newDec_zero (D := D) ▸ newDec_le 0 n h

@[simp] theorem ceilInt_zero : ceilInt (0 : D) = 0 := by
  rw [← newDec_zero, ceilInt_newDec]

@[simp] theorem truncateInt_zero : truncateInt (0 : D) = 0 := by
  rw [truncateInt, if_neg (lt_irrefl 0), neg_zero, ceilInt_zero, neg_zero]

theorem newDec_truncateInt_le (h : 0 ≤ x) : newDec (truncateInt x) ≤ x := by
  rw [truncateInt, if_neg (not_lt.mpr h), newDec_neg, neg_le]
  exact le_newDec_ceilInt (-x)

theorem truncateInt_nonneg (h : 0 ≤ x) : 0 ≤ truncateInt x := by
  rw [truncateInt, if_neg (not_lt.mpr h), neg_nonneg]
  refine ceilInt_le _ 0 ?_
  rw [newDec_zero]
  exact neg_nonpos.mpr h

theorem add_mul_newDec (x y : D) (n : ℤ) :
    mul (x + y) (newDec n) = mul x (newDec n) + mul y (newDec n) := by
  rw [mul_newDec, mul_newDec, mul_newDec, smul_add]

end DecArith

/-! ## The exact instance -/

instance : DecArith ℚ where
  mul x y := x * y
  quo x y := x / y
  newDec n := n
  ceilInt x := ⌈x⌉
  mul_newDec x n := by rw [zsmul_eq_mul, mul_comm]
  mul_comm x y := mul_comm x y
  mul_neg x y := mul_neg x y
  mul_le_mul_right x y z h hz := mul_le_mul_of_nonneg_right h hz
  newDec_le m n h := by exact_mod_cast h
  newDec_zero := Int.cast_zero
  ceilInt_newDec n := Int.ceil_intCast n
  le_newDec_ceilInt x := Int.le_ceil x
  ceilInt_le x n h := Int.ceil_le.mpr h
  quo_two_between s b h := by
    constructor
    · rw [le_div_iff₀ (by norm_num)]; push_cast; linarith
    · rw [div_le_iff₀ (by norm_num)]; push_cast; linarith

namespace DecArith

@[simp] theorem mul_rat (x y : ℚ) : mul x y = x * y := rfl
@[simp] theorem quo_rat (x y : ℚ) : quo x y = x / y := rfl
@[simp] theorem newDec_rat (n : ℤ) : (newDec n : ℚ) = n := rfl
@[simp] theorem one_rat : (one : ℚ) = 1 := Int.cast_one

end DecArith

/-! ## The fixed-point instance -/

/-- A decimal with 18 fractional digits: the integer `raw` counts `10 ^ -18`. -/
@[ext] structure LegacyDec where
  raw : ℤ
  deriving DecidableEq, Repr

namespace LegacyDec

/-- One unit, `10 ^ 18` raw. -/
def precision : ℕ := 10 ^ 18

theorem precision_pos : 0 < precision := by decide

instance : Zero LegacyDec := ⟨⟨0⟩⟩
instance : Add LegacyDec := ⟨fun x y => ⟨x.raw + y.raw⟩⟩
instance : Neg LegacyDec := ⟨fun x => ⟨-x.raw⟩⟩
instance : Sub LegacyDec := ⟨fun x y => ⟨x.raw - y.raw⟩⟩
instance : SMul ℕ LegacyDec := ⟨fun n x => ⟨n * x.raw⟩⟩
instance : SMul ℤ LegacyDec := ⟨fun n x => ⟨n * x.raw⟩⟩

@[simp] theorem raw_zero : (0 : LegacyDec).raw = 0 := rfl
@[simp] theorem raw_add (x y : LegacyDec) : (x + y).raw = x.raw + y.raw := rfl
@[simp] theorem raw_neg (x : LegacyDec) : (-x).raw = -x.raw := rfl
@[simp] theorem raw_sub (x y : LegacyDec) : (x - y).raw = x.raw - y.raw := rfl
@[simp] theorem raw_nsmul (n : ℕ) (x : LegacyDec) : (n • x).raw = n * x.raw := rfl
@[simp] theorem raw_zsmul (n : ℤ) (x : LegacyDec) : (n • x).raw = n * x.raw := rfl

theorem raw_injective : Function.Injective raw := fun _ _ h => LegacyDec.ext h

instance : AddCommGroup LegacyDec :=
  raw_injective.addCommGroup raw raw_zero raw_add raw_neg raw_sub
    (fun x n => by rw [raw_nsmul, nsmul_eq_mul])
    (fun x n => by rw [raw_zsmul, zsmul_eq_mul, Int.cast_id])

instance : LinearOrder LegacyDec := LinearOrder.lift' raw raw_injective

theorem raw_sum (l : List LegacyDec) : l.sum.raw = (l.map raw).sum :=
  map_list_sum (⟨⟨raw, raw_zero⟩, raw_add⟩ : LegacyDec →+ ℤ) l

variable {x y : LegacyDec}

theorem le_iff_raw : x ≤ y ↔ x.raw ≤ y.raw := Iff.rfl
theorem lt_iff_raw : x < y ↔ x.raw < y.raw := Iff.rfl

instance : IsOrderedAddMonoid LegacyDec where
  add_le_add_left x y h z := by
    rw [le_iff_raw] at h ⊢; simp only [raw_add]; omega

instance : DecArith LegacyDec where
  mul x y := ⟨HalfEven.chopAndRound (x.raw * y.raw) precision⟩
  -- the dividend is scaled by the squared precision, divided towards zero, and the
  -- surplus digits are then rounded off
  quo x y :=
    ⟨HalfEven.chopAndRound ((x.raw * precision * precision).tdiv y.raw) precision⟩
  newDec n := ⟨n * precision⟩
  ceilInt x := -(-x.raw / (precision : ℤ))
  mul_newDec x n := by
    ext
    rw [← mul_assoc, HalfEven.chopAndRound_mul precision_pos, raw_zsmul, mul_comm]
  mul_comm x y := by rw [mul_comm]
  mul_neg x y := by
    ext; rw [raw_neg, mul_neg, HalfEven.chopAndRound_neg, raw_neg]
  mul_le_mul_right x y z h hz :=
    HalfEven.chopAndRound_mono _ (mul_le_mul_of_nonneg_right h hz)
  newDec_le m n h := by
    rw [le_iff_raw]; exact mul_le_mul_of_nonneg_right h (Int.natCast_nonneg _)
  newDec_zero := by ext; simp
  ceilInt_newDec n := by
    rw [← neg_mul, Int.mul_ediv_cancel _ (by decide), neg_neg]
  le_newDec_ceilInt x := by
    rw [le_iff_raw]
    have h := Int.ediv_mul_le (-x.raw) (show ((precision : ℕ) : ℤ) ≠ 0 by decide)
    show x.raw ≤ -(-x.raw / (precision : ℤ)) * precision
    rw [neg_mul]; omega
  ceilInt_le x n h := by
    rw [le_iff_raw] at h
    have hle : -n * (precision : ℤ) ≤ -x.raw := by rw [neg_mul]; exact neg_le_neg h
    have hdiv := (Int.le_ediv_iff_mul_le (show (0 : ℤ) < (precision : ℕ) by decide)).mpr hle
    omega
  quo_two_between s b h := by
    have hquo : ((b + s).raw * precision * precision).tdiv (2 * precision) =
        (b + s).raw * (precision / 2 : ℕ) := by
      have hP : ((precision : ℕ) : ℤ) = 2 * (precision / 2 : ℕ) := by decide
      refine Int.tdiv_eq_of_eq_mul_left (by decide) ?_
      rw [hP]; ring
    have hlt : s.raw * (precision : ℤ) ≤ (b + s).raw * (precision / 2 : ℕ) ∧
        (b + s).raw * (precision / 2 : ℕ) ≤ b.raw * (precision : ℤ) := by
      have hraw := le_iff_raw.mp h
      rw [raw_add, precision]
      constructor <;> omega
    rw [le_iff_raw, le_iff_raw, hquo]
    constructor
    · have h1 := HalfEven.chopAndRound_mono precision hlt.1
      rwa [HalfEven.chopAndRound_mul precision_pos] at h1
    · have h2 := HalfEven.chopAndRound_mono precision hlt.2
      rwa [HalfEven.chopAndRound_mul precision_pos] at h2

theorem raw_quo (x y : LegacyDec) :
    (DecArith.quo x y).raw =
      HalfEven.chopAndRound ((x.raw * precision * precision).tdiv y.raw) precision :=
  rfl

theorem raw_newDec (n : ℤ) : (DecArith.newDec n : LegacyDec).raw = n * precision := rfl

end LegacyDec
