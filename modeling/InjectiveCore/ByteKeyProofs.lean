import Mathlib

/-!
# Byte keys — strings of digits in lexicographic order

An ordered key-value store compares keys byte by byte. A number is made into a key by
writing its digits in a fixed width, most significant first; `bigEndian_lt` says when
the order of the keys is then the order of the numbers, namely as long as the number
**fits the width**. A wider number is not cut off, it makes the string longer, and the
comparison goes wrong.

A scan that goes on behind a key starts at the next or the previous string of the same
length, `successor` and `predecessor`. Among strings of one length nothing lies between a
string and its successor (`successor_le_of_lt`).
-/

namespace ByteKey

/-! ## Digits in a fixed width -/

/-- The digits of `n` in base `b`, most significant first, padded with zeros to at
    least `w` digits. -/
def bigEndian (b w n : ℕ) : List ℕ := (Nat.digits b n).reverse.leftpad w 0

/-- The number a string of digits stands for. -/
def value (b : ℕ) (l : List ℕ) : ℕ := Nat.ofDigits b l.reverse

theorem value_cons (b d : ℕ) (l : List ℕ) : value b (d :: l) = value b l + b ^ l.length * d := by
  simp only [value, List.reverse_cons, Nat.ofDigits_append, List.length_reverse,
    Nat.ofDigits_singleton]

variable {b : ℕ} {l : List ℕ}

theorem value_lt (hb : 1 < b) (hl : ∀ d ∈ l, d < b) : value b l < b ^ l.length := by
  have h := Nat.ofDigits_lt_base_pow_length hb (l := l.reverse)
    (fun d hd => hl d (List.mem_reverse.mp hd))
  rwa [List.length_reverse] at h

theorem value_bigEndian (b w n : ℕ) : value b (bigEndian b w n) = n := by
  rw [value, bigEndian, List.leftpad, List.reverse_append, List.reverse_reverse,
    List.reverse_replicate, Nat.ofDigits_append_replicate_zero, Nat.ofDigits_digits]

variable {w n : ℕ}

theorem length_bigEndian (hb : 1 < b) (hn : n < b ^ w) : (bigEndian b w n).length = w := by
  rw [bigEndian, List.length_leftpad, List.length_reverse]
  exact max_eq_left ((Nat.digits_length_le_iff hb n).mpr hn)

theorem lt_of_mem_bigEndian {d : ℕ} (hb : 1 < b) (hd : d ∈ bigEndian b w n) : d < b := by
  rcases List.mem_append.mp hd with hd | hd
  · rw [List.eq_of_mem_replicate hd]
    exact Nat.zero_lt_of_lt hb
  · exact Nat.digits_lt_base hb (List.mem_reverse.mp hd)

theorem lt_of_value_lt (hb : 1 < b) :
    ∀ {l m : List ℕ}, l.length = m.length → (∀ d ∈ l, d < b) → (∀ d ∈ m, d < b) →
      value b l < value b m → l < m := by
  intro l
  induction l with
  | nil =>
    intro m hlen _ _ hlt
    rw [List.length_eq_zero_iff.mp hlen.symm] at hlt
    exact absurd hlt (lt_irrefl _)
  | cons x l ih =>
    intro m hlen hl hm hlt
    cases m with
    | nil => exact absurd hlen (by simp)
    | cons y m =>
      have hlen' : l.length = m.length := Nat.succ.inj hlen
      have hvl := value_lt hb (fun d hd => hl d (List.mem_cons_of_mem x hd))
      have hvm := value_lt hb (fun d hd => hm d (List.mem_cons_of_mem y hd))
      rw [value_cons, value_cons, hlen'] at hlt
      rw [hlen'] at hvl
      rcases lt_trichotomy x y with hxy | hxy | hxy
      · exact List.cons_lt_cons_iff.mpr (Or.inl hxy)
      · subst hxy
        refine List.cons_lt_cons_iff.mpr (Or.inr ⟨rfl, ih hlen' ?_ ?_ (by omega)⟩)
        · exact fun d hd => hl d (List.mem_cons_of_mem x hd)
        · exact fun d hd => hm d (List.mem_cons_of_mem x hd)
      · -- a larger leading digit outweighs everything behind it
        have hmul : b ^ m.length * (y + 1) ≤ b ^ m.length * x := Nat.mul_le_mul_left _ hxy
        rw [Nat.mul_succ] at hmul
        omega

/-- **NUMBERS THAT FIT**: in one width the keys are ordered as the numbers. -/
theorem bigEndian_lt {m : ℕ} (hb : 1 < b) (hm : m < b ^ w) (hnm : n < m) :
    bigEndian b w n < bigEndian b w m := by
  refine lt_of_value_lt hb ?_ (fun d hd => lt_of_mem_bigEndian hb hd)
    (fun d hd => lt_of_mem_bigEndian hb hd) ?_
  · rw [length_bigEndian hb hm, length_bigEndian hb (hnm.trans hm)]
  · rwa [value_bigEndian, value_bigEndian]

theorem value_append (b : ℕ) (l m : List ℕ) :
    value b (l ++ m) = value b m + b ^ m.length * value b l := by
  rw [value, List.reverse_append, Nat.ofDigits_append, List.length_reverse]
  rfl

/-- The leading digits of a string are its value without the digits behind them. -/
theorem value_take (hb : 1 < b) (hl : ∀ d ∈ l, d < b) (w : ℕ) :
    value b (l.take w) = value b l / b ^ (l.length - w) := by
  have hdrop := value_lt hb (fun d hd => hl d (List.mem_of_mem_drop hd) : ∀ d ∈ l.drop w, _)
  conv_rhs => rw [← List.take_append_drop w l, value_append]
  rw [List.length_drop] at hdrop
  rw [List.take_append_drop, List.length_drop, Nat.add_mul_div_left _ _ (Nat.zero_lt_of_lt hdrop),
    Nat.div_eq_of_lt hdrop, Nat.zero_add]

/-! ## Strings put together -/

/-- Two strings that differ at a place both have, where the first one is lower. -/
def Precedes (l m : List ℕ) : Prop :=
  ∃ c a b x y, l = c ++ a :: x ∧ m = c ++ b :: y ∧ a < b

variable {m : List ℕ}

theorem precedes_of_lt (hlen : l.length = m.length) (h : l < m) : Precedes l m := by
  induction l generalizing m with
  | nil =>
    rw [List.length_eq_zero_iff.mp hlen.symm] at h
    exact absurd h (lt_irrefl _)
  | cons a l ih =>
    cases m with
    | nil => exact absurd hlen (by simp)
    | cons b m =>
      rcases List.cons_lt_cons_iff.mp h with hab | ⟨rfl, hlm⟩
      · exact ⟨[], a, b, l, m, rfl, rfl, hab⟩
      · obtain ⟨c, d, e, x, y, rfl, rfl, hde⟩ := ih (Nat.succ.inj hlen) hlm
        exact ⟨a :: c, d, e, x, y, rfl, rfl, hde⟩

theorem Precedes.append (h : Precedes l m) (x y : List ℕ) : Precedes (l ++ x) (m ++ y) := by
  obtain ⟨c, a, b, x', y', rfl, rfl, hab⟩ := h
  exact ⟨c, a, b, x' ++ x, y' ++ y, by simp, by simp, hab⟩

variable {x y : List ℕ}

theorem Precedes.append_left (l : List ℕ) (h : Precedes x y) : Precedes (l ++ x) (l ++ y) := by
  obtain ⟨c, a, b, x', y', rfl, rfl, hab⟩ := h
  exact ⟨l ++ c, a, b, x', y', by simp, by simp, hab⟩

theorem Precedes.map_add (c : ℕ) (h : Precedes l m) : Precedes (l.map (c + ·)) (m.map (c + ·)) := by
  obtain ⟨p, a, b, x, y, rfl, rfl, hab⟩ := h
  exact ⟨p.map (c + ·), c + a, c + b, x.map (c + ·), y.map (c + ·), by simp, by simp,
    Nat.add_lt_add_left hab c⟩

theorem Precedes.lt (h : Precedes l m) : l < m := by
  obtain ⟨c, a, b, x, y, rfl, rfl, hab⟩ := h
  exact List.append_left_lt (List.cons_lt_cons_iff.mpr (Or.inl hab))

theorem append_lt_append_of_lt (hlen : l.length = m.length) (h : l < m) (x y : List ℕ) :
    l ++ x < m ++ y := ((precedes_of_lt hlen h).append x y).lt

theorem append_le_append_left (l : List ℕ) (h : x ≤ y) : l ++ x ≤ l ++ y := by
  rcases h.eq_or_lt with rfl | hlt
  · exact le_refl _
  · exact le_of_lt (List.append_left_lt hlt)

theorem cons_le_of_lt {a b : ℕ} (h : a < b) (x y : List ℕ) : a :: x ≤ b :: y :=
  le_of_lt (List.cons_lt_cons_iff.mpr (Or.inl h))

/-! ## The next and the previous string -/

/-- The next string of the same length: the last byte that is not 255 is raised, those
    behind it start again at 0. There is none behind a string of 255s. -/
def successor : List ℕ → Option (List ℕ)
  | [] => none
  | b :: rest =>
    match successor rest with
    | some rest' => some (b :: rest')
    | none => if b = 255 then none else some ((b + 1) :: rest.map (fun _ => 0))

/-- The previous string of the same length: the last byte that is not 0 is lowered,
    those behind it start again at 255. There is none before a string of 0s. -/
def predecessor : List ℕ → Option (List ℕ)
  | [] => none
  | b :: rest =>
    match predecessor rest with
    | some rest' => some (b :: rest')
    | none => if b = 0 then none else some ((b - 1) :: rest.map (fun _ => 255))

theorem precedes_successor (h : successor l = some m) : Precedes l m := by
  induction l generalizing m with
  | nil => exact nomatch h
  | cons b rest ih =>
    simp only [successor] at h
    cases hs : successor rest with
    | some rest' =>
      simp only [hs, Option.some.injEq] at h
      subst h
      exact (ih hs).append_left [b]
    | none =>
      simp only [hs] at h
      split at h
      · exact nomatch h
      · cases h
        exact ⟨[], b, b + 1, rest, _, rfl, rfl, Nat.lt_succ_self b⟩

theorem lt_successor (h : successor l = some m) : l < m := (precedes_successor h).lt

theorem predecessor_lt (h : predecessor l = some m) : m < l := by
  induction l generalizing m with
  | nil => exact nomatch h
  | cons b rest ih =>
    simp only [predecessor] at h
    cases hs : predecessor rest with
    | some rest' =>
      simp only [hs, Option.some.injEq] at h
      subst h
      exact List.cons_lt_cons_iff.mpr (Or.inr ⟨rfl, ih hs⟩)
    | none =>
      simp only [hs] at h
      split at h
      · exact nomatch h
      rename_i hb
      cases h
      exact List.cons_lt_cons_iff.mpr (Or.inl (by omega))

theorem map_zero_le (hlen : l.length = m.length) : l.map (fun _ => 0) ≤ m := by
  induction l generalizing m with
  | nil => exact le_of_eq (List.length_eq_zero_iff.mp hlen.symm).symm
  | cons a l ih =>
    cases m with
    | nil => exact absurd hlen (by simp)
    | cons b m =>
      rcases Nat.eq_zero_or_pos b with hb | hb
      · subst hb
        exact List.cons_le_cons 0 (ih (Nat.succ.inj hlen))
      · exact cons_le_of_lt hb _ m

theorem successor_append (h : successor x = some y) (l : List ℕ) :
    successor (l ++ x) = some (l ++ y) := by
  induction l with
  | nil => exact h
  | cons b l ih => simp only [List.cons_append, successor, ih]

theorem predecessor_append (h : predecessor x = some y) (l : List ℕ) :
    predecessor (l ++ x) = some (l ++ y) := by
  induction l with
  | nil => exact h
  | cons b l ih => simp only [List.cons_append, predecessor, ih]

/-- The string behind a place where two strings differ starts again at 0. -/
theorem successor_cons_le {a b : ℕ} (hab : a < b) (ha : a < 255)
    (hzero : successor x = none → x.map (fun _ => 0) ≤ y) :
    ∃ s, successor (a :: x) = some s ∧ s ≤ b :: y := by
  cases hs : successor x with
  | some x' => exact ⟨a :: x', by simp only [successor, hs], cons_le_of_lt hab x' y⟩
  | none =>
    refine ⟨(a + 1) :: x.map (fun _ => 0), ?_, ?_⟩
    · simp only [successor, hs, if_neg ha.ne]
    · rcases Nat.eq_or_lt_of_le hab with rfl | hlt
      · exact List.cons_le_cons (a + 1) (hzero hs)
      · exact cons_le_of_lt hlt _ y

section Bounds

variable (hlen : l.length = m.length) (hm : ∀ d ∈ m, d ≤ 255)
include hlen hm

/-- **NEXT**: nothing of the same length lies between a string and its successor. -/
theorem successor_le_of_lt (h : l < m) : ∃ s, successor l = some s ∧ s ≤ m := by
  obtain ⟨c, a, b, x, y, rfl, rfl, hab⟩ := precedes_of_lt hlen h
  have hxy : x.length = y.length := by simpa using hlen
  have hb := hm b (List.mem_append_right c List.mem_cons_self)
  obtain ⟨s, hs, hle⟩ := successor_cons_le hab (hab.trans_le hb) (fun _ => map_zero_le hxy)
  exact ⟨c ++ s, successor_append hs c, append_le_append_left c hle⟩

end Bounds

theorem eq_zero_of_predecessor (h : predecessor l = none) : ∀ d ∈ l, d = 0 := by
  induction l with
  | nil => exact fun d hd => nomatch hd
  | cons b rest ih =>
    simp only [predecessor] at h
    cases hs : predecessor rest with
    | some rest' => simp only [hs] at h; exact nomatch h
    | none =>
      simp only [hs, ite_eq_left_iff, reduceCtorEq, imp_false, not_not] at h
      exact List.forall_mem_cons.mpr ⟨h, ih hs⟩

theorem eq_255_of_successor (h : successor l = none) : ∀ d ∈ l, d = 255 := by
  induction l with
  | nil => exact fun d hd => nomatch hd
  | cons b rest ih =>
    simp only [successor] at h
    cases hs : successor rest with
    | some rest' => simp only [hs] at h; exact nomatch h
    | none =>
      simp only [hs, ite_eq_left_iff, reduceCtorEq, imp_false, not_not] at h
      exact List.forall_mem_cons.mpr ⟨h, ih hs⟩

/-- A string of bytes below 255 that differs from a later one has its successor before
    that one, too. -/
theorem Precedes.successor_le (h : Precedes l m) (hl : ∀ d ∈ l, d < 255) :
    ∃ s, successor l = some s ∧ s ≤ m := by
  obtain ⟨c, a, b, x, y, rfl, rfl, hab⟩ := h
  have hzero : successor x = none → x.map (fun _ => 0) ≤ y := by
    intro hs
    have hx : x = [] := by
      refine List.eq_nil_iff_forall_not_mem.mpr ?_
      intro d hd
      have hmem := hl d (List.mem_append_right c (List.mem_cons_of_mem a hd))
      exact hmem.ne (eq_255_of_successor hs d hd)
    rw [hx]
    exact not_lt.mp (List.not_lt_nil y)
  obtain ⟨s, hs, hle⟩ :=
    successor_cons_le hab (hl a (List.mem_append_right c List.mem_cons_self)) hzero
  exact ⟨c ++ s, successor_append hs c, append_le_append_left c hle⟩

theorem value_eq_zero (h : ∀ d ∈ l, d = 0) : value b l = 0 := by
  induction l with
  | nil => rfl
  | cons d l ih =>
    rw [value_cons, ih (fun x hx => h x (List.mem_cons_of_mem d hx)),
      h d List.mem_cons_self, Nat.mul_zero]

end ByteKey
