import InjectiveCore.ExchangeOrderKeysProofs

/-!
# Price keys — the order of the bytes and the order of the prices

Orders are stored under their price, written with 32 digits before the point and 18 behind
it, and a scan of the store is meant to go by price. The padding fits every price **below**
`MaxOrderPrice`, and order validation also accepts `MaxOrderPrice` itself, which has a digit
more.

- `key_lt_key_iff`: of two accepted prices the lower one has the lower key, whatever follows
  the price in the key, unless the higher one is `MaxOrderPrice` and the lower one is at
  least `10 ^ 31 + 1` (`Misplaced`).
- `getPriceFromPaddedPrice_getPaddedPrice`: the price is read back, `MaxOrderPrice`
  included.
- `price_keys_ordered_iff` puts both together, for two prices and for the keys of a store.
-/

namespace ExchangePriceKeys

open DecArith ExchangeFees ExchangeSubaccountOrders ExchangeOrderKeys

/-! ## Prices that are accepted -/

/-- `MaxOrderPrice`. -/
def maxOrderPrice : LegacyDec := newDec (10 ^ 32)

/-- The check of the price in `OrderInfo.ValidateBasic`. -/
def validPrice (price : LegacyDec) : Bool := !(decide (price ≤ 0) || decide (maxOrderPrice < price))

variable {price : LegacyDec}

theorem validPrice_iff : validPrice price = true ↔ 0 < price ∧ price ≤ maxOrderPrice := by
  simp [validPrice]

theorem maxOrderPrice_eq : maxOrderPrice = priceBound := by decide

/-! ## Reading a price -/

/-- `strings.Trim` with the digit zero. -/
def trimZeros (s : List ℕ) : List ℕ := (s.dropWhile (· == 48)).rdropWhile (· == 48)

/-- The number a text of decimal digits stands for. -/
def digitsValue (s : List ℕ) : ℕ := ByteKey.value 10 (s.map (· - 48))

/-- A text of decimal digits. -/
def isDigits (s : List ℕ) : Bool := !s.isEmpty && s.all (fun d => 48 ≤ d && d ≤ 57)

/-- `SetString` of a big integer, base 10, with an optional sign. -/
def setString (s : List ℕ) : Option ℤ :=
  if s.head? = some 43 then
    if isDigits s.tail then some (digitsValue s.tail) else none
  else if s.head? = some 45 then
    if isDigits s.tail then some (-(digitsValue s.tail : ℤ)) else none
  else if isDigits s then some (digitsValue s) else none

/-- The end of `LegacyNewDecFromStr`: zeros are added up to the precision. -/
def decFromParts (natural decimals : List ℕ) : Option LegacyDec :=
  if 18 < decimals.length then none
  else
    (setString (natural ++ decimals ++ List.replicate (18 - decimals.length) 48)).bind
      (fun combined => if 2 ^ 316 ≤ combined.natAbs then none else some ⟨combined⟩)

/-- `LegacyNewDecFromStr` behind the sign. -/
def unsignedFromStr (str : List ℕ) : Option LegacyDec :=
  if str = [] then none
  else
    match str.splitOn 46 with
    | [natural] => decFromParts natural []
    | [natural, decimals] =>
      if decimals = [] ∨ natural = [] then none else decFromParts natural decimals
    | _ => none

/-- `LegacyNewDecFromStr`. -/
def legacyNewDecFromStr (str : List ℕ) : Option LegacyDec :=
  if str.head? = some 45 then (unsignedFromStr str.tail).map (fun d => -d)
  else unsignedFromStr str

/-- `strings.TrimSuffix` with the point. -/
def trimPoint (s : List ℕ) : List ℕ := if s.getLast? = some 46 then s.dropLast else s

/-- The edge cases of `GetPriceFromPaddedPrice`: a zero when there is no natural part, or
    nothing at all. -/
def completed (s : List ℕ) : List ℕ :=
  if s.head? = some 46 then 48 :: s else if s = [] then [48] else s

/-- `GetPriceFromPaddedPrice`; `none` is the panic of `LegacyMustNewDecFromStr`. -/
def getPriceFromPaddedPrice (paddedPrice : List ℕ) : Option LegacyDec :=
  legacyNewDecFromStr (completed (trimPoint (trimZeros paddedPrice)))

/-! ## Texts of digits -/

variable {s : List ℕ}

theorem isDigits_iff : isDigits s = true ↔ s ≠ [] ∧ ∀ d ∈ s, 48 ≤ d ∧ d ≤ 57 := by
  simp [isDigits]

variable {d : ℕ}

theorem digitsValue_append (s t : List ℕ) :
    digitsValue (s ++ t) = digitsValue t + 10 ^ t.length * digitsValue s := by
  rw [digitsValue, ByteKey.value, List.map_append, List.reverse_append, Nat.ofDigits_append,
    List.length_reverse, List.length_map]
  rfl

theorem digitsValue_decimalBytes (w n : ℕ) : digitsValue (decimalBytes w n) = n := by
  have hmap : (decimalBytes w n).map (· - 48) = ByteKey.bigEndian 10 w n := by
    rw [decimalBytes, List.map_map]
    conv_rhs => rw [← List.map_id (ByteKey.bigEndian 10 w n)]
    refine List.map_congr_left ?_
    intro d _
    exact Nat.add_sub_cancel_left 48 d
  rw [digitsValue, hmap, ByteKey.value_bigEndian]

theorem digitsValue_dropWhile (s : List ℕ) :
    digitsValue (s.dropWhile (· == 48)) = digitsValue s := by
  induction s with
  | nil => rfl
  | cons d s ih =>
    by_cases hd : d = 48
    · subst hd
      rw [List.dropWhile_cons_of_pos (by rfl), ih, ← List.singleton_append, digitsValue_append,
        show digitsValue [48] = 0 from rfl, Nat.mul_zero, Nat.add_zero]
    · rw [List.dropWhile_cons_of_neg (by simpa using hd)]

theorem rdropWhile_append_zeros (s : List ℕ) :
    s.rdropWhile (· == 48) ++
      List.replicate (s.length - (s.rdropWhile (· == 48)).length) 48 = s := by
  induction s using List.reverseRecOn with
  | nil => rfl
  | append_singleton s d ih =>
    by_cases hd : d = 48
    · subst hd
      have hle : (s.rdropWhile (· == 48)).length ≤ s.length :=
        (List.rdropWhile_prefix (· == 48) s).length_le
      rw [List.rdropWhile_concat_pos _ _ _ (by rfl), List.length_append, List.length_singleton,
        Nat.succ_sub hle, List.replicate_succ', ← List.append_assoc, ih]
    · rw [List.rdropWhile_concat_neg _ _ _ (by simpa using hd), Nat.sub_self,
        List.replicate_zero, List.append_nil]

variable {p : ℕ → Bool} {a : ℕ}

theorem dropWhile_append_cons (ha : p a = false) (s t : List ℕ) :
    (s ++ a :: t).dropWhile p = s.dropWhile p ++ a :: t := by
  rw [List.dropWhile_append]
  split
  · next hnil =>
    rw [List.isEmpty_iff.mp hnil, List.dropWhile_cons_of_neg (by simp [ha])]
    rfl
  · rfl

theorem rdropWhile_append_cons (ha : p a = false) (s t : List ℕ) :
    (s ++ a :: t).rdropWhile p = s ++ a :: t.rdropWhile p := by
  rw [List.rdropWhile, List.reverse_append, List.reverse_cons, List.append_assoc,
    List.singleton_append, dropWhile_append_cons ha, List.reverse_append, List.reverse_cons,
    List.reverse_reverse, List.append_assoc, List.singleton_append]
  rfl

/-! ## The price is read back -/

theorem setString_of_digits (h : isDigits s = true) :
    setString s = some (digitsValue s : ℤ) := by
  obtain ⟨hne, hs⟩ := isDigits_iff.mp h
  obtain ⟨d, s, rfl⟩ := List.exists_cons_of_ne_nil hne
  have hd := hs d List.mem_cons_self
  rw [setString, List.head?_cons, if_neg (by simp; omega), if_neg (by simp; omega), if_pos h]

variable {natural decimals : List ℕ}

theorem decFromParts_of_digits (hn : isDigits natural = true)
    (hd : ∀ d ∈ decimals, 48 ≤ d ∧ d ≤ 57) (hlen : decimals.length ≤ 18) {v : ℕ}
    (hv : digitsValue (natural ++ decimals ++ List.replicate (18 - decimals.length) 48) = v)
    (hmax : v < 2 ^ 316) : decFromParts natural decimals = some ⟨v⟩ := by
  have hdigits : isDigits (natural ++ decimals ++
      List.replicate (18 - decimals.length) 48) = true := by
    obtain ⟨hne, hall⟩ := isDigits_iff.mp hn
    refine isDigits_iff.mpr ⟨by simp [hne], ?_⟩
    rw [List.forall_mem_append, List.forall_mem_append]
    refine ⟨⟨hall, hd⟩, ?_⟩
    intro d hmem
    rw [List.eq_of_mem_replicate hmem]
    decide
  rw [decFromParts, if_neg (not_lt.mpr hlen), setString_of_digits hdigits, hv,
    Option.bind_some, if_neg (by rw [Int.natAbs_natCast]; exact not_le.mpr hmax)]

theorem legacyNewDecFromStr_of_digit (hd : 48 ≤ d) (s : List ℕ) :
    legacyNewDecFromStr (d :: s) = unsignedFromStr (d :: s) := by
  rw [legacyNewDecFromStr, List.head?_cons, if_neg (by simp; omega)]

theorem completed_of_digit (hd : 48 ≤ d) (s : List ℕ) : completed (d :: s) = d :: s := by
  rw [completed, List.head?_cons, if_neg (by simp; omega), if_neg (List.cons_ne_nil d s)]

theorem point_notMem (hs : ∀ d ∈ s, 48 ≤ d ∧ d ≤ 57) : 46 ∉ s := by
  intro h
  have := hs 46 h
  omega

theorem unsignedFromStr_natural (h : isDigits s = true) :
    unsignedFromStr s = decFromParts s [] := by
  obtain ⟨hne, hs⟩ := isDigits_iff.mp h
  rw [unsignedFromStr, if_neg hne, List.splitOn_eq_singleton (point_notMem hs)]

theorem unsignedFromStr_decimal (hn : isDigits natural = true) (hd : isDigits decimals = true) :
    unsignedFromStr (natural ++ 46 :: decimals) = decFromParts natural decimals := by
  obtain ⟨hn0, hn⟩ := isDigits_iff.mp hn
  obtain ⟨hd0, hd⟩ := isDigits_iff.mp hd
  rw [unsignedFromStr, if_neg (by simp),
    List.splitOn_append_cons_self_of_not_mem (point_notMem hn),
    List.splitOn_eq_singleton (point_notMem hd)]
  exact if_neg (by simp [hn0, hd0])

/-- The digits before the point without leading zeros, and those behind it without
    trailing ones, stand for the price. -/
theorem digitsValue_trimmed (h0 : 0 ≤ price)
    (hn : digitsValue natural = price.raw.toNat / LegacyDec.precision)
    (hd : decimals = (decimalBytes 18 (price.raw.toNat % LegacyDec.precision)).rdropWhile
      (· == 48)) :
    (digitsValue (natural ++ decimals ++ List.replicate (18 - decimals.length) 48) : ℤ) =
      price.raw := by
  have hlen : (decimalBytes 18 (price.raw.toNat % LegacyDec.precision)).length = 18 :=
    length_decimalBytes (Nat.mod_lt _ LegacyDec.precision_pos)
  have hfill := rdropWhile_append_zeros (decimalBytes 18 (price.raw.toNat % LegacyDec.precision))
  rw [hlen, ← hd] at hfill
  have hdiv := Nat.mod_add_div price.raw.toNat (10 ^ 18)
  have hraw : 0 ≤ price.raw := h0
  rw [List.append_assoc, hfill, digitsValue_append, digitsValue_decimalBytes, hlen, hn,
    show LegacyDec.precision = 10 ^ 18 from rfl, hdiv]
  exact Int.toNat_of_nonneg hraw

theorem trimPoint_concat (s : List ℕ) : trimPoint (s ++ [46]) = s := by
  rw [trimPoint, List.getLast?_concat, if_pos rfl, List.dropLast_concat]

theorem trimPoint_of_digits {t : List ℕ} (h : isDigits t = true) :
    trimPoint (s ++ 46 :: t) = s ++ 46 :: t := by
  obtain ⟨hne, ht⟩ := isDigits_iff.mp h
  refine if_neg ?_
  rw [List.getLast?_append_of_ne_nil s (List.cons_ne_nil 46 t), List.getLast?_cons,
    List.getLast?_eq_some_getLast hne, Option.getD_some]
  intro heq
  have := ht _ (List.getLast_mem hne)
  rw [Option.some.inj heq] at this
  omega

/-- **READ BACK**: every accepted price is the one read from its padded text. -/
theorem getPriceFromPaddedPrice_getPaddedPrice (h0 : 0 < price) (hmax : price ≤ maxOrderPrice) :
    getPriceFromPaddedPrice (getPaddedPrice price) = some price := by
  have hraw0 : 0 < price.raw := h0
  have hraw : price.raw ≤ 10 ^ 50 := by
    rw [maxOrderPrice_eq] at hmax
    exact hmax
  rw [getPriceFromPaddedPrice, trimZeros, getPaddedPrice, dropWhile_append_cons rfl,
    rdropWhile_append_cons rfl]
  generalize hnat : (decimalBytes 32 (price.raw.toNat / LegacyDec.precision)).dropWhile
    (· == 48) = natural
  generalize hdec : (decimalBytes 18 (price.raw.toNat % LegacyDec.precision)).rdropWhile
    (· == 48) = decimals
  have hnatDigits : ∀ d ∈ natural, 48 ≤ d ∧ d ≤ 57 := by
    intro d hd
    rw [← hnat] at hd
    exact digit_of_mem_decimalBytes ((List.dropWhile_sublist _).subset hd)
  have hdecDigits : ∀ d ∈ decimals, 48 ≤ d ∧ d ≤ 57 := by
    intro d hd
    rw [← hdec] at hd
    exact digit_of_mem_decimalBytes ((List.rdropWhile_prefix _ _).subset hd)
  have hlen : decimals.length ≤ 18 := by
    rw [← hdec]
    exact (List.rdropWhile_prefix _ _).length_le.trans_eq
      (length_decimalBytes (Nat.mod_lt price.raw.toNat LegacyDec.precision_pos))
  have hvalue : digitsValue natural = price.raw.toNat / LegacyDec.precision := by
    rw [← hnat, digitsValue_dropWhile, digitsValue_decimalBytes]
  -- read with any natural part of the right value, the parts give the price
  have hparts : ∀ text, isDigits text = true →
      digitsValue text = price.raw.toNat / LegacyDec.precision →
      decFromParts text decimals = some price := by
    intro text htext hv
    have hprice := digitsValue_trimmed (le_of_lt h0) hv hdec.symm
    rw [decFromParts_of_digits htext hdecDigits hlen rfl (by omega), hprice]
  by_cases hd0 : decimals = []
  · subst hd0
    have hn0 : natural ≠ [] := by
      rintro rfl
      have hprice := digitsValue_trimmed (le_of_lt h0) hvalue hdec.symm
      rw [show digitsValue ([] ++ [] ++ List.replicate (18 - ([] : List ℕ).length) 48) = 0 from
        rfl] at hprice
      omega
    obtain ⟨d, rest, rfl⟩ := List.exists_cons_of_ne_nil hn0
    have hd := hnatDigits d List.mem_cons_self
    have hdigits := isDigits_iff.mpr ⟨hn0, hnatDigits⟩
    rw [trimPoint_concat, completed_of_digit hd.1, legacyNewDecFromStr_of_digit hd.1,
      unsignedFromStr_natural hdigits]
    exact hparts _ hdigits hvalue
  · have hdigits := isDigits_iff.mpr ⟨hd0, hdecDigits⟩
    rw [trimPoint_of_digits hdigits]
    cases natural with
    | nil =>
      rw [List.nil_append, completed, List.head?_cons, if_pos rfl,
        legacyNewDecFromStr_of_digit (le_refl 48)]
      have hzero : isDigits [48] = true := rfl
      exact (unsignedFromStr_decimal hzero hdigits).trans (hparts _ rfl hvalue)
    | cons d rest =>
      have hd := hnatDigits d List.mem_cons_self
      have hnatural := isDigits_iff.mpr ⟨List.cons_ne_nil d rest, hnatDigits⟩
      rw [List.cons_append, completed_of_digit hd.1, legacyNewDecFromStr_of_digit hd.1,
        ← List.cons_append, unsignedFromStr_decimal hnatural hdigits]
      exact hparts _ hnatural hvalue

/-! ## The order of the keys -/

/-- The prices whose keys stand in the wrong order: the highest accepted one, and a lower
    one that is larger than its first 32 digits. -/
def Overlong (low high : LegacyDec) : Prop :=
  high = maxOrderPrice ∧ newDec (10 ^ 31 + 1) ≤ low ∧ low < maxOrderPrice

instance (low high : LegacyDec) : Decidable (Overlong low high) :=
  inferInstanceAs (Decidable (_ ∧ _ ∧ _))

/-- Two prices whose keys stand in the wrong order. -/
def Misplaced (p q : LegacyDec) : Prop := Overlong p q ∨ Overlong q p

instance (p q : LegacyDec) : Decidable (Misplaced p q) := inferInstanceAs (Decidable (_ ∨ _))

variable {p q : LegacyDec}

theorem Misplaced.symm (h : Misplaced p q) : Misplaced q p := Or.symm h

theorem Overlong.lt {low high : LegacyDec} (h : Overlong low high) : low < high :=
  lt_of_lt_of_eq h.2.2 h.1.symm

theorem misplaced_iff_of_lt (h : p < q) : Misplaced p q ↔ Overlong p q := by
  constructor
  · rintro (hpq | hqp)
    · exact hpq
    · exact absurd hqp.lt (lt_asymm h)
  · exact Or.inl

/-- Among accepted prices only `MaxOrderPrice` has the digits to outrank another one. -/
theorem outranks_iff_overlong (hp : 0 < p) (hq : q ≤ maxOrderPrice) (h : p < q) :
    Outranks (units p) (units q) ↔ Overlong p q := by
  have hpbound : units p < 10 ^ 32 := units_lt (maxOrderPrice_eq ▸ h.trans_le hq)
  have hpw : width (units p) = 32 := le_antisymm (width_le_iff.mpr hpbound) (le_max_left _ _)
  rcases hq.eq_or_lt with rfl | hlt
  · have hunits : units maxOrderPrice = 10 ^ 32 := by decide
    have hqw : width (10 ^ 32) = 33 := by
      rw [width, Nat.length_digits 10 _ (by decide) (by decide), Nat.log_pow (by decide)]
      rfl
    have hraw0 : 0 < p.raw := hp
    have hiff : 10 ^ 31 < units p ↔ newDec (10 ^ 31 + 1) ≤ p := by
      rw [units, ← Nat.succ_le_iff, Nat.le_div_iff_mul_le LegacyDec.precision_pos,
        LegacyDec.precision]
      show _ ↔ (10 ^ 31 + 1) * 10 ^ 18 ≤ p.raw
      omega
    rw [Outranks, Overlong, hpw, hunits, hqw]
    constructor
    · rintro ⟨-, hlead⟩
      exact ⟨rfl, hiff.mp (by simpa using hlead), h⟩
    · rintro ⟨-, hlow, -⟩
      exact ⟨by decide, by simpa using hiff.mpr hlow⟩
  · have hqw : width (units q) ≤ 32 := width_le_iff.mpr (units_lt (maxOrderPrice_eq ▸ hlt))
    constructor
    · rintro ⟨hw, -⟩
      omega
    · rintro ⟨heq, -, -⟩
      exact absurd heq hlt.ne

theorem key_maxOrderPrice_lt_key (h : Overlong p q) (x y : List ℕ) :
    getPaddedPrice q ++ y < getPaddedPrice p ++ x := by
  have hp : 0 < p := lt_of_lt_of_le (by decide) h.2.1
  have hout := (outranks_iff_overlong hp h.1.le h.lt).mpr h
  exact (((padded_precedes hp.le h.lt).2 hout).append y x).lt

/-- **KEY ORDER**: whatever follows them in the key, of two accepted prices the lower one
    comes first, unless they are misplaced. -/
theorem key_lt_key_iff (hp : 0 < p) (hq : q ≤ maxOrderPrice) (h : p < q) (x y : List ℕ) :
    getPaddedPrice p ++ x < getPaddedPrice q ++ y ↔ ¬Misplaced p q := by
  rw [misplaced_iff_of_lt h]
  constructor
  · intro hlt hover
    exact lt_asymm hlt (key_maxOrderPrice_lt_key hover x y)
  · intro hover
    have hout := mt (outranks_iff_overlong hp hq h).mp hover
    exact (((padded_precedes hp.le h).1 hout).append x y).lt

theorem getPaddedPrice_lt_iff (hp : validPrice p = true) (hq : validPrice q = true) :
    (getPaddedPrice p < getPaddedPrice q ↔ p < q) ↔ ¬Misplaced p q := by
  rw [validPrice_iff] at hp hq
  rcases lt_trichotomy p q with h | rfl | h
  · have hkey := key_lt_key_iff hp.1 hq.2 h [] []
    rw [List.append_nil, List.append_nil] at hkey
    rw [iff_true_right h, hkey]
  · have hself : ¬Misplaced p p := by
      rintro (hover | hover) <;> exact lt_irrefl p hover.lt
    exact iff_of_true (iff_of_false (lt_irrefl _) (lt_irrefl _)) hself
  · have hkey := key_lt_key_iff hq.1 hp.2 h [] []
    rw [List.append_nil, List.append_nil] at hkey
    rw [iff_false_right (lt_asymm h)]
    constructor
    · intro hnot hmis
      rcases (misplaced_iff_of_lt h).mp hmis.symm with hover
      have hlt := key_maxOrderPrice_lt_key hover [] []
      rw [List.append_nil, List.append_nil] at hlt
      exact hnot hlt
    · intro hmis
      exact lt_asymm (hkey.mpr (fun hqp => hmis hqp.symm))

/-! ## Scanning the store -/

/-- In a list that rises along `R`, members related by `R` stand in this order. -/
theorem rel_of_pairwise {α : Type} {R S : α → α → Prop} (hR : ∀ a b, R a b → ¬R b a)
    {l : List α} (hl : l.Pairwise R) (hS : l.Pairwise S) {a b : α} (ha : a ∈ l) (hb : b ∈ l)
    (hab : R a b) : S a b := by
  induction l with
  | nil => cases ha
  | cons c l ih =>
    rw [List.pairwise_cons] at hl hS
    rcases List.mem_cons.mp ha with rfl | ha'
    · rcases List.mem_cons.mp hb with rfl | hb'
      · exact absurd hab (hR _ _ hab)
      · exact hS.1 b hb'
    · rcases List.mem_cons.mp hb with rfl | hb'
      · exact absurd hab (hR _ _ (hl.1 a ha'))
      · exact ih hl.2 hS.2 ha' hb'

/-- Along the keys of a store the prices rise, unless two of them are misplaced. -/
theorem prices_sorted_iff (K : StoredKeys) (hK : ∀ k ∈ K.keys, validPrice k.1 = true) :
    K.keys.Pairwise (fun a b => a.1 ≤ b.1) ↔ ∀ a ∈ K.keys, ∀ b ∈ K.keys, ¬Misplaced a.1 b.1 := by
  have hvalid : ∀ k ∈ K.keys, 0 < k.1 ∧ k.1 ≤ maxOrderPrice :=
    fun k hk => validPrice_iff.mp (hK k hk)
  constructor
  · intro hprices
    -- the keys rise with the prices, so an overlong price would have to stand on both sides
    have hover : ∀ a ∈ K.keys, ∀ b ∈ K.keys, ¬Overlong a.1 b.1 := by
      intro a ha b hb hover
      have hkey : getSubaccountOrderIterationKey b.1 b.2 <
          getSubaccountOrderIterationKey a.1 a.2 := key_maxOrderPrice_lt_key hover _ _
      have hle := rel_of_pairwise (fun _ _ => lt_asymm) K.sorted hprices hb ha hkey
      exact not_lt_of_ge hle hover.lt
    intro a ha b hb hmis
    exact hmis.elim (hover a ha b hb) (hover b hb a ha)
  · intro hmis
    refine K.sorted.imp_of_mem ?_
    intro a b ha hb hkey
    refine le_of_not_gt (fun hba => lt_asymm hkey ?_)
    exact (key_lt_key_iff (hvalid b hb).1 (hvalid a ha).2 hba _ _).mpr (hmis b hb a ha)

/-- **PRICE KEYS**: for accepted prices, the padded texts are ordered as the prices, and a
    scan of the store goes by price, exactly when no two prices are misplaced; the price is
    always read back. -/
theorem price_keys_ordered_iff (p q : LegacyDec) (hp : validPrice p = true)
    (hq : validPrice q = true) (K : StoredKeys)
    (hK : ∀ k ∈ K.keys, validPrice k.1 = true) :
    ((getPaddedPrice p < getPaddedPrice q ↔ p < q) ↔ ¬Misplaced p q) ∧
      (K.keys.Pairwise (fun a b => a.1 ≤ b.1) ↔
        ∀ a ∈ K.keys, ∀ b ∈ K.keys, ¬Misplaced a.1 b.1) ∧
      getPriceFromPaddedPrice (getPaddedPrice p) = some p := by
  refine ⟨getPaddedPrice_lt_iff hp hq, prices_sorted_iff K hK, ?_⟩
  rw [validPrice_iff] at hp
  exact getPriceFromPaddedPrice_getPaddedPrice hp.1 hp.2

/-- Two orders at 1 and 2. -/
def sampleKeys : StoredKeys := ⟨[(newDec 1, 8), (newDec 2, 7)], by decide +kernel⟩

theorem price_keys_ordered_one_two :
    ((getPaddedPrice (newDec 1) < getPaddedPrice (newDec 2) ↔ (newDec 1 : LegacyDec) < newDec 2) ↔
        ¬Misplaced (newDec 1) (newDec 2)) ∧
      (sampleKeys.keys.Pairwise (fun a b => a.1 ≤ b.1) ↔
        ∀ a ∈ sampleKeys.keys, ∀ b ∈ sampleKeys.keys, ¬Misplaced a.1 b.1) ∧
      getPriceFromPaddedPrice (getPaddedPrice (newDec 1)) = some (newDec 1) :=
  price_keys_ordered_iff (newDec 1) (newDec 2) (by decide) (by decide) sampleKeys (by decide)

/-- At `MaxOrderPrice` the order breaks: the key of `2 * 10 ^ 31` is above it. -/
theorem maxOrderPrice_sorts_below :
    validPrice (newDec (2 * 10 ^ 31)) = true ∧ validPrice maxOrderPrice = true ∧
      (newDec (2 * 10 ^ 31) : LegacyDec) < maxOrderPrice ∧
      getPaddedPrice maxOrderPrice < getPaddedPrice (newDec (2 * 10 ^ 31)) := by
  refine ⟨by decide, by decide, by decide, ?_⟩
  have h := key_maxOrderPrice_lt_key (p := newDec (2 * 10 ^ 31)) (q := maxOrderPrice)
    (by decide) [] []
  rwa [List.append_nil, List.append_nil] at h

end ExchangePriceKeys
