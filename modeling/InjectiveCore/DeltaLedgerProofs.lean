import Mathlib

/-!
# A ledger of deltas — accounts, their entries and the total

A batch of transfers is accumulated as one delta per account. `Ledger K V` is that
map: an association list whose keys are **distinct by construction**, so that
summing its entries counts every account once. Two facts carry every argument
about such a batch:

- `get_applyDelta`: applying a delta changes the entry of its own account, by the
  delta, and no other entry;
- `total_applyDelta`: it changes the sum over all accounts by the delta.
-/

namespace DeltaLedger

variable {K V : Type} [DecidableEq K] [AddCommMonoid V]

/-- Add `v` to the entry of `k`, creating it when missing. -/
def bump : List (K × V) → K → V → List (K × V)
  | [], k, v => [(k, v)]
  | (k', v') :: rest, k, v =>
    if k' = k then (k', v' + v) :: rest else (k', v') :: bump rest k v

theorem bump_keys (l : List (K × V)) (k : K) (v : V) :
    (bump l k v).map Prod.fst =
      if k ∈ l.map Prod.fst then l.map Prod.fst else l.map Prod.fst ++ [k] := by
  induction l with
  | nil => rfl
  | cons hd rest ih =>
    obtain ⟨k', v'⟩ := hd
    rw [bump]
    by_cases h : k' = k
    · subst h; simp
    · rw [if_neg h, List.map_cons, ih]
      have hne : ¬k = k' := fun he => h he.symm
      by_cases hm : k ∈ rest.map Prod.fst
      · rw [if_pos hm, if_pos (by simp only [List.map_cons, List.mem_cons]; exact Or.inr hm)]
        rfl
      · rw [if_neg hm, if_neg (by
          simp only [List.map_cons, List.mem_cons, not_or]; exact ⟨hne, hm⟩)]
        rfl

/-- An account-to-delta map with distinct accounts. -/
structure Ledger (K V : Type) where
  entries : List (K × V)
  nodup : (entries.map Prod.fst).Nodup

namespace Ledger

/-- The ledger without entries. -/
def empty : Ledger K V := ⟨[], List.nodup_nil⟩

/-- Add a delta to the entry of an account. -/
def applyDelta (l : Ledger K V) (k : K) (v : V) : Ledger K V :=
  ⟨bump l.entries k v, by
    rw [bump_keys]
    split
    · exact l.nodup
    · next h =>
        rw [List.nodup_append]
        refine ⟨l.nodup, List.nodup_singleton k, ?_⟩
        intro a ha b hb hab
        rw [List.mem_singleton] at hb
        exact h (hb ▸ hab ▸ ha)⟩

/-- The delta of one account, zero when it has none. -/
def get (l : Ledger K V) (k : K) : V :=
  ((l.entries.find? (fun e => e.1 = k)).map Prod.snd).getD 0

/-- The sum of the deltas of all accounts. -/
def total (l : Ledger K V) : V := (l.entries.map Prod.snd).sum

omit [DecidableEq K] in
@[simp] theorem total_empty : (empty : Ledger K V).total = 0 := rfl

@[simp] theorem get_empty (k : K) : (empty : Ledger K V).get k = 0 := rfl

private theorem sum_bump (l : List (K × V)) (k : K) (v : V) :
    ((bump l k v).map Prod.snd).sum = (l.map Prod.snd).sum + v := by
  induction l with
  | nil => simp [bump]
  | cons hd rest ih =>
    obtain ⟨k', v'⟩ := hd
    rw [bump]
    split
    · simp only [List.map_cons, List.sum_cons]; abel
    · simp only [List.map_cons, List.sum_cons, ih]; abel

/-- **TOTAL**: a delta moves the sum over all accounts by itself. -/
@[simp] theorem total_applyDelta (l : Ledger K V) (k : K) (v : V) :
    (l.applyDelta k v).total = l.total + v :=
  sum_bump l.entries k v

private theorem find_bump (l : List (K × V)) (k k' : K) (v : V) :
    (((bump l k v).find? (fun e => e.1 = k')).map Prod.snd).getD 0 =
      ((l.find? (fun e => e.1 = k')).map Prod.snd).getD 0 + if k = k' then v else 0 := by
  induction l with
  | nil =>
    by_cases h : k = k'
    · simp [bump, h]
    · simp [bump, h]
  | cons hd rest ih =>
    obtain ⟨k₀, v₀⟩ := hd
    rw [bump]
    by_cases h₀ : k₀ = k
    · subst h₀
      by_cases h : k₀ = k'
      · simp [h]
      · simp [h]
    · rw [if_neg h₀]
      by_cases h : k₀ = k'
      · have hk : ¬k = k' := fun he => h₀ (h.trans he.symm)
        simp [h, hk]
      · simp only [List.find?_cons, h, decide_false]
        exact ih

/-- **LOCALITY**: a delta changes the entry of its own account only. -/
@[simp] theorem get_applyDelta (l : Ledger K V) (k k' : K) (v : V) :
    (l.applyDelta k v).get k' = l.get k' + if k = k' then v else 0 :=
  find_bump l.entries k k' v

end Ledger

end DeltaLedger
