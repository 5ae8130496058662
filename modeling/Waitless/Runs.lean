/-! # Runs of a deterministic system

`Along step C s as` says that every step of the run from `s` meets the condition `C`, a relation
between the state before the step and its input. `Along.invariant` is the induction rule for what
such runs preserve. -/

namespace Runs

variable {σ α : Type _}

/-- Every step of the run from `s` over `as` meets `C`. -/
def Along (step : σ → α → σ) (C : σ → α → Prop) : σ → List α → Prop
  | _, [] => True
  | s, a :: as => C s a ∧ Along step C (step s a) as

instance Along.decidable (step : σ → α → σ) (C : σ → α → Prop) [∀ s a, Decidable (C s a)] :
    ∀ s as, Decidable (Along step C s as)
  | _, [] => isTrue trivial
  | s, a :: as =>
    haveI := Along.decidable step C (step s a) as
    inferInstanceAs (Decidable (C s a ∧ Along step C (step s a) as))

variable {step : σ → α → σ} {C D : σ → α → Prop} {s : σ} {as bs : List α}

/-- **The invariant rule** over runs whose steps meet the condition. -/
theorem Along.invariant {I : σ → Prop} (hstep : ∀ s a, C s a → I s → I (step s a))
    (h : Along step C s as) (hs : I s) : I (as.foldl step s) := by
  induction as generalizing s with
  | nil => exact hs
  | cons a as ih => exact ih h.2 (hstep s a h.1 hs)

theorem along_append : Along step C s (as ++ bs) ↔ Along step C s as ∧ Along step C (as.foldl step s) bs := by
  induction as generalizing s with
  | nil => simp [Along]
  | cons a as ih => rw [List.cons_append, Along, Along, ih, List.foldl_cons, and_assoc]

theorem Along.mono (hCD : ∀ s a, C s a → D s a) (h : Along step C s as) : Along step D s as := by
  induction as generalizing s with
  | nil => trivial
  | cons a as ih => exact ⟨hCD _ _ h.1, ih h.2⟩

theorem along_of_forall {P : α → Prop} (h : ∀ a ∈ as, P a) : Along step (fun _ a => P a) s as := by
  induction as generalizing s with
  | nil => trivial
  | cons a as ih => exact ⟨h a List.mem_cons_self, ih fun b hb => h b (List.mem_cons_of_mem _ hb)⟩

/-- A fold that is evaluated one state at a time. -/
def walk (step : σ → α → σ) (look p : σ → Bool) : σ → List α → Bool
  | s, [] => p s
  | s, a :: as => (look s || true) && walk step look p (step s a) as

theorem walk_eq (look p : σ → Bool) : walk step look p s as = p (as.foldl step s) := by
  induction as generalizing s with
  | nil => rfl
  | cons a as ih => rw [walk, Bool.or_true, Bool.true_and, ih, List.foldl_cons]

end Runs
