import Mathlib

/-!
# Keyed stores and what they add up to

A key-value store holds at most one value under a key, so a sum over its entries counts
every key once. `put` writes or deletes: it is the one way a store changes, and two
facts say all there is to say about it.

- `lookup_put`: it changes what is found under its own key, and under no other.
- `total_put`: it takes the old value out of every sum over the store, and puts the new
  one in.

`putAll` is a loop of writes; `lookup_putAll` and `total_putAll_none` are the same two
facts about it.
-/

namespace KeyedStore

/-- A store: at most one value under a key. -/
abbrev Store (K V : Type) := AList (fun _ : K => V)

variable {K V W : Type} [DecidableEq K]

/-- Write a value under a key, or delete what is there. -/
def put (k : K) (x : Option V) (s : Store K V) : Store K V :=
  match x with
  | none => s.erase k
  | some v => s.insert k v

/-- **LOCALITY**: a write changes what is found under its own key only. -/
theorem lookup_put (k k' : K) (x : Option V) (s : Store K V) :
    (put k x s).lookup k' = if k' = k then x else s.lookup k' := by
  by_cases h : k' = k
  · subst h
    rw [if_pos rfl]
    cases x with
    | none => exact AList.lookup_erase k' s
    | some v => exact AList.lookup_insert s
  · rw [if_neg h]
    cases x with
    | none => exact AList.lookup_erase_ne h
    | some v => exact AList.lookup_insert_ne h

theorem lookup_put_self (k : K) (x : Option V) (s : Store K V) : (put k x s).lookup k = x :=
  (lookup_put k k x s).trans (if_pos rfl)

variable {k : K} {s : Store K V} {k' : K}

theorem lookup_put_of_ne (h : k' ≠ k) (x : Option V) (s : Store K V) :
    (put k x s).lookup k' = s.lookup k' := (lookup_put k k' x s).trans (if_neg h)

variable {v w : V}

theorem lookup_put_some_cases (h : (put k (some v) s).lookup k' = some w) :
    k' = k ∧ w = v ∨ k' ≠ k ∧ s.lookup k' = some w := by
  rw [lookup_put] at h
  split at h
  · next hk => exact .inl ⟨hk, (Option.some.inj h).symm⟩
  · next hk => exact .inr ⟨hk, h⟩

theorem lookup_put_none_cases (h : (put k none s).lookup k' = some w) :
    k' ≠ k ∧ s.lookup k' = some w := by
  rw [lookup_put] at h
  split at h
  · cases h
  · next hk => exact ⟨hk, h⟩

variable {P : K → V → Prop}

/-- What holds of all entries and of the new one holds of all entries after the write. -/
theorem forall_lookup_put (hs : ∀ k' w, s.lookup k' = some w → P k' w) (hv : P k v) :
    ∀ k' w, (put k (some v) s).lookup k' = some w → P k' w := by
  intro k' w h
  rcases lookup_put_some_cases h with ⟨rfl, rfl⟩ | ⟨-, h⟩
  · exact hv
  · exact hs k' w h

theorem forall_lookup_delete (hs : ∀ k' w, s.lookup k' = some w → P k' w) :
    ∀ k' w, (put k none s).lookup k' = some w → P k' w :=
  fun k' w h => hs k' w (lookup_put_none_cases h).2

/-- Values that agree in `f` are under one key, also after a write that respects this. -/
theorem lookup_put_inj {f : V → W}
    (hs : ∀ k₁ v₁ k₂ v₂, s.lookup k₁ = some v₁ → s.lookup k₂ = some v₂ → f v₁ = f v₂ → k₁ = k₂)
    (hv : ∀ k' w, s.lookup k' = some w → f w = f v → k' = k) :
    ∀ k₁ v₁ k₂ v₂, (put k (some v) s).lookup k₁ = some v₁ →
      (put k (some v) s).lookup k₂ = some v₂ → f v₁ = f v₂ → k₁ = k₂ := by
  intro k₁ v₁ k₂ v₂ h₁ h₂ heq
  rcases lookup_put_some_cases h₁ with ⟨rfl, rfl⟩ | ⟨-, hold₁⟩
  · rcases lookup_put_some_cases h₂ with ⟨rfl, -⟩ | ⟨-, hold₂⟩
    · rfl
    · exact (hv k₂ v₂ hold₂ heq.symm).symm
  · rcases lookup_put_some_cases h₂ with ⟨rfl, rfl⟩ | ⟨-, hold₂⟩
    · exact hv k₁ v₁ hold₁ heq
    · exact hs k₁ v₁ k₂ v₂ hold₁ hold₂ heq

theorem lookup_eq_ite {x : Option V} (h : s.lookup k = x) (k' : K) :
    s.lookup k' = if k' = k then x else s.lookup k' := by
  split
  · next hk => rw [hk, h]
  · rfl

theorem erase_eq_self (h : s.lookup k = none) : s.erase k = s := by
  refine AList.ext ?_
  have hk : k ∉ s.entries.keys := AList.lookup_eq_none.mp h
  exact List.kerase_of_notMem_keys hk

theorem mem_entries_iff : ⟨k, v⟩ ∈ s.entries ↔ s.lookup k = some v :=
  (AList.mem_lookup_iff (β := fun _ : K => V)).symm

theorem mem_keys_iff : k ∈ s.keys ↔ ∃ v, s.lookup k = some v := by
  rw [← AList.mem_keys, ← AList.lookup_isSome, Option.isSome_iff_exists]

/-- The same value written under several keys, or several keys deleted. -/
def putAll (ks : List K) (x : Option V) (s : Store K V) : Store K V :=
  ks.foldl (fun s k => put k x s) s

theorem putAll_cons (k : K) (ks : List K) (x : Option V) (s : Store K V) :
    putAll (k :: ks) x s = putAll ks x (put k x s) := rfl

theorem lookup_putAll (ks : List K) (x : Option V) (s : Store K V) (k : K) :
    (putAll ks x s).lookup k = if k ∈ ks then x else s.lookup k := by
  induction ks generalizing s with
  | nil => exact (if_neg List.not_mem_nil).symm
  | cons k' ks ih =>
    rw [putAll_cons, ih, lookup_put]
    by_cases hks : k ∈ ks
    · rw [if_pos hks, if_pos (List.mem_cons_of_mem k' hks)]
    · rw [if_neg hks]
      exact if_congr (by rw [List.mem_cons, or_iff_left hks]) rfl rfl

theorem lookup_putAll_none_cases {ks : List K} (h : (putAll ks none s).lookup k = some v) :
    k ∉ ks ∧ s.lookup k = some v := by
  rw [lookup_putAll] at h
  split at h
  · cases h
  · next hk => exact ⟨hk, h⟩

section Total

variable [AddCommMonoid W]

/-- The sum of a weight over the entries of a store. -/
def total (w : K → V → W) (s : Store K V) : W := (s.entries.map (fun e => w e.1 e.2)).sum

section Weights

variable (w : K → V → W)

omit [DecidableEq K] in
@[simp] theorem total_empty : total w (∅ : Store K V) = 0 := rfl

/-- The weight of what a key may hold. -/
def weight (w : K → V → W) (k : K) (x : Option V) : W := x.elim 0 (w k)

omit [DecidableEq K] in
@[simp] theorem weight_none (k : K) : weight w k none = 0 := rfl

omit [DecidableEq K] in
@[simp] theorem weight_some (k : K) (v : V) : weight w k (some v) = w k v := rfl

theorem total_eq_add_erase (k : K) (s : Store K V) :
    total w s = weight w k (s.lookup k) + total w (s.erase k) := by
  cases h : s.lookup k with
  | none => rw [erase_eq_self h, weight_none, zero_add]
  | some v =>
    obtain ⟨v', pre, post, -, hs, herase⟩ := List.exists_of_kerase (mem_keys_iff.mpr ⟨v, h⟩)
    have hv : v' = v := by
      have hmem : (⟨k, v'⟩ : Sigma fun _ : K => V) ∈ s.entries := by
        rw [hs]
        exact List.mem_append_right pre List.mem_cons_self
      exact Option.some.inj ((mem_entries_iff.mp hmem).symm.trans h)
    subst hv
    show (s.entries.map _).sum = w k v' + ((s.entries.kerase k).map _).sum
    rw [herase, hs, List.map_append, List.map_append, List.sum_append, List.sum_append,
      List.map_cons, List.sum_cons]
    exact add_left_comm _ _ _

/-- **TOTAL**: what a write leaves, with the new value in place of the old one. -/
theorem total_put (k : K) (x : Option V) (s : Store K V) :
    total w (put k x s) = weight w k x + total w (s.erase k) := by
  cases x with
  | none => exact (zero_add _).symm
  | some v =>
    show ((s.insert k v).entries.map (fun e => w e.1 e.2)).sum = _
    rw [AList.entries_insert, List.map_cons, List.sum_cons]
    rfl

theorem total_putAll_none {ks : List K} (hks : ks.Nodup) (s : Store K V) :
    total w s = (ks.map (fun k => weight w k (s.lookup k))).sum + total w (putAll ks none s) := by
  induction ks generalizing s with
  | nil => exact (zero_add _).symm
  | cons k ks ih =>
    rw [List.nodup_cons] at hks
    have hrest : ks.map (fun k' => weight w k' ((put k none s).lookup k')) =
        ks.map (fun k' => weight w k' (s.lookup k')) := by
      refine List.map_congr_left ?_
      intro k' hk'
      rw [lookup_put_of_ne (fun h : k' = k => hks.1 (h ▸ hk'))]
    have herase : put k none s = s.erase k := rfl
    rw [total_eq_add_erase w k s, ← herase, ih hks.2 (put k none s), hrest, List.map_cons,
      List.sum_cons, putAll_cons, add_assoc]

theorem total_eq_of_lookup {s' : Store K V} (h : ∀ k, s.lookup k = s'.lookup k) :
    total w s = total w s' := by
  have hmem : ∀ e, e ∈ s.entries ↔ e ∈ s'.entries := by
    intro e
    rw [show e = ⟨e.1, e.2⟩ from rfl, mem_entries_iff, mem_entries_iff, h]
  have hperm : s.entries.Perm s'.entries :=
    (List.perm_ext_iff_of_nodup s.nodupKeys.nodup s'.nodupKeys.nodup).mpr hmem
  exact (hperm.map _).sum_eq

end Weights

omit [DecidableEq K] in
theorem total_ite (p : K → V → Prop) [∀ k v, Decidable (p k v)] (f : V → W) (s : Store K V) :
    total (fun k v => if p k v then f v else 0) s =
      (((s.entries.filter (fun e => p e.1 e.2)).map (·.2)).map f).sum := by
  rw [total]
  induction s.entries with
  | nil => rfl
  | cons e rest ih =>
    rw [List.map_cons, List.sum_cons, ih]
    by_cases he : p e.1 e.2
    · rw [if_pos he, List.filter_cons_of_pos (by simpa using he), List.map_cons,
        List.map_cons, List.sum_cons]
    · rw [if_neg he, List.filter_cons_of_neg (by simpa using he), zero_add]

omit [DecidableEq K] in
theorem total_nonneg [PartialOrder W] [IsOrderedAddMonoid W] {w : K → V → W}
    (h : ∀ e ∈ s.entries, 0 ≤ w e.1 e.2) : 0 ≤ total w s := by
  refine List.sum_nonneg ?_
  intro x hx
  obtain ⟨e, he, rfl⟩ := List.mem_map.mp hx
  exact h e he

end Total

section Difference

variable [AddCommGroup W]

theorem total_put_sub (w : K → V → W) (k : K) (x : Option V) (s : Store K V) :
    total w (put k x s) = total w s + (weight w k x - weight w k (s.lookup k)) := by
  rw [total_put, total_eq_add_erase w k s]
  abel

end Difference

end KeyedStore
