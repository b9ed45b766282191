import Mathlib.Data.List.Basic

/-! # Runs of a guarded step function -/

namespace DDTrace.Machine

variable {σ α ι : Type} (step : σ → α → Option σ)

/-- Runs a list of steps, stopping at the first one that is not enabled. -/
def run : σ → List α → Option σ
  | s, [] => some s
  | s, a :: as => (step s a).bind (run · as)

/-- The states reached by enabled steps from one of the states `init i`. -/
inductive Reachable (init : ι → σ) : σ → Prop
  | init (i : ι) : Reachable init (init i)
  | step {s s' : σ} (a : α) : Reachable init s → step s a = some s' → Reachable init s'

variable {step}

@[simp] theorem run_nil (s : σ) : run step s [] = some s := rfl

@[simp] theorem run_cons (s : σ) (a : α) (as : List α) :
    run step s (a :: as) = (step s a).bind (run step · as) := rfl

theorem run_append (s : σ) (as bs : List α) :
    run step s (as ++ bs) = (run step s as).bind (run step · bs) := by
  induction as generalizing s with
  | nil => rfl
  | cons a as ih => simp only [List.cons_append, run_cons, ih, Option.bind_assoc]

theorem run_append_of {s s₁ s₂ : σ} {as bs : List α} (h₁ : run step s as = some s₁)
    (h₂ : run step s₁ bs = some s₂) : run step s (as ++ bs) = some s₂ := by
  rw [run_append, h₁, Option.some_bind, h₂]

theorem run_append_eq_some {s s₂ : σ} {as bs : List α} (h : run step s (as ++ bs) = some s₂) :
    ∃ s₁, run step s as = some s₁ ∧ run step s₁ bs = some s₂ :=
  Option.bind_eq_some.1 ((run_append s as bs).symm.trans h)

/-- What every step of a run keeps, the run keeps. -/
theorem run_closed_mem {P : σ → Prop} {as : List α}
    (hP : ∀ s a s', a ∈ as → P s → step s a = some s' → P s') {s s' : σ} (hs : P s)
    (h : run step s as = some s') : P s' := by
  induction as generalizing s with
  | nil => cases h; exact hs
  | cons a as ih =>
    obtain ⟨s₁, h₁, h⟩ := Option.bind_eq_some.1 h
    exact ih (fun t b t' hb => hP t b t' (.tail _ hb)) (hP s a s₁ (.head _) hs h₁) h

theorem run_closed {P : σ → Prop} (hP : ∀ s a s', P s → step s a = some s' → P s') {s s' : σ}
    {as : List α} (hs : P s) (h : run step s as = some s') : P s' :=
  run_closed_mem (fun s a s' _ => hP s a s') hs h

theorem reachable_induction {init : ι → σ} {P : σ → Prop} (hinit : ∀ i, P (init i))
    (hstep : ∀ s a s', P s → step s a = some s' → P s') {s : σ} (h : Reachable step init s) :
    P s := by
  induction h with
  | init i => exact hinit i
  | step a _ hs ih => exact hstep _ a _ ih hs

theorem Reachable.run {init : ι → σ} {s s' : σ} (as : List α) (h : Reachable step init s)
    (hr : run step s as = some s') : Reachable step init s' :=
  run_closed (fun _ a _ h hs => .step a h hs) h hr

end DDTrace.Machine
