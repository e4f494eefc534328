import InjectiveCore.KeyedStoreProofs

/-!
# Balance sheets — who holds how much of what

A bank is a store of amounts under an account and a denomination. Coins are credited,
debited and transferred; an account never goes below zero, a debit that asks for more is
refused. The **supply** of a denomination is what the balances add up to.

Every law is balanced with `+` on both sides, so that a chain of operations is a chain of
equations without subtraction:

- `balance_credit`, `balance_debit`, `balance_transfer`: one account in one denomination
  changes, by the amount;
- `supply_credit`, `supply_debit`, `supply_transfer`: so does the supply, and a transfer
  leaves it.
-/

namespace BalanceSheet

open KeyedStore

variable {A D : Type} [DecidableEq A] [DecidableEq D]

/-- Amounts under an account and a denomination. -/
abbrev Balances (A D : Type) := Store (A × D) ℕ

/-- What an account holds. -/
def balance (b : Balances A D) (a : A) (d : D) : ℕ := (b.lookup (a, d)).getD 0

/-- What all accounts hold. -/
def supply (b : Balances A D) (d : D) : ℕ := total (fun k q => if k.2 = d then q else 0) b

def credit (b : Balances A D) (a : A) (d : D) (q : ℕ) : Balances A D :=
  put (a, d) (some (balance b a d + q)) b

/-- A debit of more than the account holds is refused. -/
def debit (b : Balances A D) (a : A) (d : D) (q : ℕ) : Option (Balances A D) :=
  if q ≤ balance b a d then some (put (a, d) (some (balance b a d - q)) b) else none

def transfer (b : Balances A D) (src dst : A) (d : D) (q : ℕ) : Option (Balances A D) :=
  (debit b src d q).map (fun b' => credit b' dst d q)

/-- What a transaction moves to or from one account in one denomination. -/
def entry (a : A) (d : D) (q : ℕ) (a' : A) (d' : D) : ℕ := if a' = a ∧ d' = d then q else 0

variable {a : A}

theorem entry_of_ne {a' : A} (h : a' ≠ a) (d : D) (q : ℕ) (d' : D) :
    entry a d q a' d' = 0 := if_neg (fun hh => h hh.1)

/-! ## One account -/

theorem balance_put (b : Balances A D) (a : A) (d : D) (q : ℕ) (a' : A) (d' : D) :
    balance (put (a, d) (some q) b) a' d' = if a' = a ∧ d' = d then q else balance b a' d' := by
  rw [balance, lookup_put]
  by_cases h : a' = a ∧ d' = d
  · rw [if_pos (Prod.ext h.1 h.2), if_pos h]
    rfl
  · rw [if_neg (fun hh => h ⟨congrArg Prod.fst hh, congrArg Prod.snd hh⟩), if_neg h]
    rfl

theorem balance_credit (b : Balances A D) (a : A) (d : D) (q : ℕ) (a' : A) (d' : D) :
    balance (credit b a d q) a' d' = balance b a' d' + entry a d q a' d' := by
  rw [credit, balance_put, entry]
  by_cases h : a' = a ∧ d' = d
  · rw [if_pos h, if_pos h, h.1, h.2]
  · rw [if_neg h, if_neg h, Nat.add_zero]

variable {b b' : Balances A D} {d : D} {q : ℕ}

theorem debit_some (h : debit b a d q = some b') :
    q ≤ balance b a d ∧ b' = put (a, d) (some (balance b a d - q)) b := by
  rw [debit] at h
  split at h
  · next hq => exact ⟨hq, (Option.some.inj h).symm⟩
  · cases h

theorem balance_debit (h : debit b a d q = some b') (a' : A) (d' : D) :
    balance b' a' d' + entry a d q a' d' = balance b a' d' := by
  obtain ⟨hq, rfl⟩ := debit_some h
  rw [balance_put, entry]
  by_cases hk : a' = a ∧ d' = d
  · rw [if_pos hk, if_pos hk, hk.1, hk.2, Nat.sub_add_cancel hq]
  · rw [if_neg hk, if_neg hk, Nat.add_zero]

variable {src dst : A}

/-- **TRANSFER**: one account gets what another gives. -/
theorem balance_transfer (h : transfer b src dst d q = some b') (a : A) (d' : D) :
    balance b' a d' + entry src d q a d' = balance b a d' + entry dst d q a d' := by
  obtain ⟨b₁, h₁, rfl⟩ := Option.map_eq_some_iff.mp h
  rw [balance_credit, ← balance_debit h₁ a d']
  exact add_right_comm _ _ _

theorem transfer_isSome_iff : (transfer b src dst d q).isSome ↔ q ≤ balance b src d := by
  rw [transfer, Option.isSome_map, debit]
  by_cases hq : q ≤ balance b src d
  · rw [if_pos hq]
    exact iff_of_true rfl hq
  · rw [if_neg hq]
    exact iff_of_false Bool.false_ne_true hq

/-! ## The supply -/

/-- What an amount of one denomination is in another: nothing. -/
def inDenom (d : D) (q : ℕ) (d' : D) : ℕ := if d' = d then q else 0

@[simp] theorem inDenom_self (d : D) (q : ℕ) : inDenom d q d = q := if_pos rfl

@[simp] theorem inDenom_zero (d d' : D) : inDenom d 0 d' = 0 := ite_self 0

theorem inDenom_of_ne {d' : D} (h : d' ≠ d) (q : ℕ) : inDenom d q d' = 0 := if_neg h

theorem inDenom_add (d : D) (q r : ℕ) (d' : D) :
    inDenom d (q + r) d' = inDenom d q d' + inDenom d r d' := by
  by_cases h : d' = d
  · rw [h, inDenom_self, inDenom_self, inDenom_self]
  · rw [inDenom_of_ne h, inDenom_of_ne h, inDenom_of_ne h]

theorem entry_same_account (a : A) (d : D) (q : ℕ) (d' : D) :
    entry a d q a d' = inDenom d q d' := if_congr (and_iff_right rfl) rfl rfl

theorem supply_put (b : Balances A D) (a : A) (d : D) (q : ℕ) (d' : D) :
    supply (put (a, d) (some q) b) d' + inDenom d (balance b a d) d' =
      supply b d' + inDenom d q d' := by
  have hold : weight (fun (k : A × D) q => if k.2 = d' then q else 0) (a, d)
      (b.lookup (a, d)) = inDenom d (balance b a d) d' := by
    rw [balance]
    cases b.lookup (a, d) with
    | none => exact (ite_self 0).symm
    | some q' => exact if_congr eq_comm rfl rfl
  have hnew : weight (fun (k : A × D) q => if k.2 = d' then q else 0) (a, d) (some q) =
      inDenom d q d' := if_congr eq_comm rfl rfl
  rw [supply, total_put, supply, total_eq_add_erase _ (a, d) b, hold, hnew]
  omega

theorem supply_credit (b : Balances A D) (a : A) (d : D) (q : ℕ) (d' : D) :
    supply (credit b a d q) d' = supply b d' + inDenom d q d' := by
  have h := supply_put b a d (balance b a d + q) d'
  rw [inDenom_add] at h
  rw [credit]
  omega

theorem supply_debit (h : debit b a d q = some b') (d' : D) :
    supply b' d' + inDenom d q d' = supply b d' := by
  obtain ⟨hq, rfl⟩ := debit_some h
  have hput := supply_put b a d (balance b a d - q) d'
  have hsum := inDenom_add d (balance b a d - q) q d'
  rw [Nat.sub_add_cancel hq] at hsum
  omega

theorem supply_transfer (h : transfer b src dst d q = some b') (d' : D) :
    supply b' d' = supply b d' := by
  obtain ⟨b₁, h₁, rfl⟩ := Option.map_eq_some_iff.mp h
  rw [supply_credit, supply_debit h₁]

theorem balance_le_supply (b : Balances A D) (a : A) (d : D) : balance b a d ≤ supply b d := by
  rw [supply, total_eq_add_erase _ (a, d) b, balance]
  cases b.lookup (a, d) with
  | none => exact Nat.zero_le _
  | some q =>
    rw [weight_some, if_pos rfl]
    exact Nat.le_add_right _ _

end BalanceSheet
