import Mathlib.Data.List.Basic

/-!
# Conditions along a run

A run folds a step that may fail over a list. `Along` asks for a condition at every step of it, in the state that the
steps before lead to. It splits where the list does (`along_append`), and when the condition makes a step succeed and
keep an invariant, the run succeeds and the invariant holds at its end (`Along.keeps`).
-/

namespace OrderKeeper

variable {σ α : Type} {step : σ → α → Option σ} {P : σ → α → Prop}

/-- A condition at every step of a run. -/
def Along (step : σ → α → Option σ) (P : σ → α → Prop) : σ → List α → Prop
  | _, [] => True
  | s, x :: xs => P s x ∧ ∀ s' ∈ step s x, Along step P s' xs

instance decidableAlong (step : σ → α → Option σ) (P : σ → α → Prop) [∀ s x, Decidable (P s x)] :
    (s : σ) → (xs : List α) → Decidable (Along step P s xs)
  | _, [] => inferInstanceAs (Decidable True)
  | s, x :: xs =>
    have : DecidablePred fun s' => Along step P s' xs := fun s' => decidableAlong step P s' xs
    inferInstanceAs (Decidable (P s x ∧ ∀ s' ∈ step s x, Along step P s' xs))

/-- A condition along two runs, the second from where the first ends. -/
theorem along_append {s : σ} {xs ys : List α} :
    Along step P s (xs ++ ys) ↔ Along step P s xs ∧ ∀ mid ∈ xs.foldlM step s, Along step P mid ys := by
  induction xs generalizing s with
  | nil => simp [Along]
  | cons x xs ih =>
    cases hstep : step s x with
    | none => simp [Along, hstep]
    | some s' => simp [Along, hstep, ih, and_assoc]

theorem along_of_forall (h : ∀ s x, P s x) {s : σ} {xs : List α} : Along step P s xs := by
  induction xs generalizing s with
  | nil => exact trivial
  | cons x xs ih => exact ⟨h s x, fun s' _ => ih⟩

/-- Two conditions along a run are one. -/
theorem Along.and {Q : σ → α → Prop} {s : σ} {xs : List α} (hP : Along step P s xs) (hQ : Along step Q s xs) :
    Along step (fun s x => P s x ∧ Q s x) s xs := by
  induction xs generalizing s with
  | nil => exact trivial
  | cons x xs ih => exact ⟨⟨hP.1, hQ.1⟩, fun s' hs' => ih (hP.2 s' hs') (hQ.2 s' hs')⟩

/-- When the condition makes every step succeed and keep an invariant, the run does too. -/
theorem Along.keeps {I : σ → Prop} {s : σ} {xs : List α} (h : Along step P s xs) (h0 : I s)
    (hstep : ∀ s x, x ∈ xs → I s → P s x → ∃ s', step s x = some s' ∧ I s') :
    ∃ s', xs.foldlM step s = some s' ∧ I s' := by
  induction xs generalizing s with
  | nil => exact ⟨s, rfl, h0⟩
  | cons x xs ih =>
    obtain ⟨hx, hrest⟩ := h
    obtain ⟨mid, hmid, hI⟩ := hstep s x List.mem_cons_self h0 hx
    obtain ⟨s', hs', hI'⟩ := ih (hrest mid hmid) hI fun s y hy => hstep s y (List.mem_cons_of_mem _ hy)
    exact ⟨s', by simp only [List.foldlM_cons, hmid, Option.bind_eq_bind, Option.bind_some, hs'], hI'⟩

/-- What every step keeps under the condition holds where the run ends. -/
theorem Along.keeps_of_run {I : σ → Prop} {s s' : σ} {xs : List α} (h : Along step P s xs) (h0 : I s)
    (hrun : xs.foldlM step s = some s') (hstep : ∀ s x s', x ∈ xs → I s → P s x → step s x = some s' → I s') :
    I s' := by
  induction xs generalizing s with
  | nil =>
    cases hrun
    exact h0
  | cons x xs ih =>
    obtain ⟨hx, hrest⟩ := h
    simp only [List.foldlM_cons, Option.bind_eq_bind, Option.bind_eq_some_iff] at hrun
    obtain ⟨mid, hmid, hrun⟩ := hrun
    exact ih (hrest mid hmid) (hstep s x mid List.mem_cons_self h0 hx hmid) hrun
      fun s y s' hy => hstep s y s' (List.mem_cons_of_mem _ hy)

end OrderKeeper
