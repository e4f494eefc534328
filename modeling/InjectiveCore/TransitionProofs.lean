import Mathlib

/-!
# Transitions — operations that may fail, and runs of them

A program that serves requests is a state and a family of operations on it. An
operation returns a new state or an error, and a request that fails is **reverted**: it
leaves the state it found (`attempt`). What every successful operation preserves
therefore holds along every run, whatever fails in between (`run_invariant_on`,
`run_invariant`).

`exists_of_bind_eq_ok` takes a computation written in steps apart, `exists_mapM_eq_ok` and
`map_eq_of_mapM_eq_ok` are about a loop that collects results.
-/

namespace Transition

section Except

variable {ε α β : Type} {f : α → Except ε β}

/-- A computation in steps that succeeds: its first step did, and the rest after it. -/
theorem exists_of_bind_eq_ok {x : Except ε α} {b : β} (h : x >>= f = .ok b) :
    ∃ a, x = .ok a ∧ f a = .ok b := by
  cases x with
  | error e => exact nomatch h
  | ok a => exact ⟨a, rfl, h⟩

variable {l : List α}

theorem exists_mapM_eq_ok (h : ∀ a ∈ l, ∃ b, f a = .ok b) : ∃ bs, l.mapM f = .ok bs := by
  induction l with
  | nil => exact ⟨[], rfl⟩
  | cons a l ih =>
    obtain ⟨b, hb⟩ := h a List.mem_cons_self
    obtain ⟨bs, hbs⟩ := ih (fun a' ha' => h a' (List.mem_cons_of_mem a ha'))
    refine ⟨b :: bs, ?_⟩
    rw [List.mapM_cons, hb, hbs]
    rfl

theorem exists_of_mapM_eq_error {e : ε} (h : l.mapM f = .error e) : ∃ a ∈ l, f a = .error e := by
  induction l with
  | nil => cases h
  | cons a l ih =>
    rw [List.mapM_cons] at h
    cases ha : f a with
    | error e' =>
      rw [ha] at h
      obtain rfl : e' = e := Except.error.inj h
      exact ⟨a, List.mem_cons_self, ha⟩
    | ok b =>
      rw [ha] at h
      cases hl : l.mapM f with
      | error e' =>
        rw [hl] at h
        obtain rfl : e' = e := Except.error.inj h
        obtain ⟨a', ha', hfail⟩ := ih hl
        exact ⟨a', List.mem_cons_of_mem a ha', hfail⟩
      | ok bs =>
        rw [hl] at h
        cases h

theorem map_eq_of_mapM_eq_ok {γ : Type} {g : β → γ} {w : α → γ}
    (hf : ∀ a b, f a = .ok b → g b = w a) {bs : List β} (h : l.mapM f = .ok bs) :
    bs.map g = l.map w := by
  induction l generalizing bs with
  | nil =>
    rw [← Except.ok.inj h]
    rfl
  | cons a l ih =>
    rw [List.mapM_cons] at h
    obtain ⟨b, hb, h⟩ := exists_of_bind_eq_ok h
    obtain ⟨bs', hbs', h⟩ := exists_of_bind_eq_ok h
    rw [← Except.ok.inj h, List.map_cons, List.map_cons, hf a b hb, ih hbs']

end Except

section Run

variable {ε α σ : Type} (step : α → σ → Except ε σ)

/-- A request that fails leaves the state as it was. -/
def attempt (s : σ) (a : α) : σ :=
  match step a s with
  | .ok s' => s'
  | .error _ => s

/-- The requests of a run, one after the other. -/
def run (s : σ) (actions : List α) : σ := actions.foldl (attempt step) s

variable {step} {Inv : σ → Prop} {s : σ}

/-- **RUNS**: what every successful operation of a run preserves holds after it. -/
theorem run_invariant_on {actions : List α}
    (hstep : ∀ a ∈ actions, ∀ s s', Inv s → step a s = .ok s' → Inv s') (hs : Inv s) :
    Inv (run step s actions) := by
  induction actions generalizing s with
  | nil => exact hs
  | cons a actions ih =>
    refine ih (fun a' ha' => hstep a' (List.mem_cons_of_mem a ha')) ?_
    show Inv (attempt step s a)
    rw [attempt]
    split
    · rename_i s' h
      exact hstep a List.mem_cons_self s s' hs h
    · exact hs

theorem run_invariant (hstep : ∀ a s s', Inv s → step a s = .ok s' → Inv s') (actions : List α)
    (hs : Inv s) : Inv (run step s actions) :=
  run_invariant_on (fun a _ => hstep a) hs

end Run

end Transition
