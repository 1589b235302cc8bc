import Mathlib.Data.List.Basic

/-!
Components that answer one operation after the other.

A `Machine` takes an operation to its next state and an answer. One machine
refines another when some relation between their states is kept by every
operation, with equal answers (`Machine.refines`); the relation may use up a
budget, one unit for each operation.
-/

namespace Program

variable {σ τ ι ω : Type}

/-- One step for each operation. -/
structure Machine (σ ι ω : Type) where
  step : σ → ι → σ × ω

namespace Machine

/-- A run: the last state, and the answers. -/
def run (M : Machine σ ι ω) : σ → List ι → σ × List ω
  | s, [] => (s, [])
  | s, op :: ops =>
      let (s', answer) := M.step s op
      let (s'', answers) := M.run s' ops
      (s'', answer :: answers)

variable {M : Machine σ ι ω} {N : Machine τ ι ω}

@[simp] theorem run_nil (s : σ) : M.run s [] = (s, []) := rfl

@[simp] theorem run_cons (s : σ) (op : ι) (ops : List ι) :
    M.run s (op :: ops) =
      ((M.run (M.step s op).1 ops).1, (M.step s op).2 :: (M.run (M.step s op).1 ops).2) := rfl

/-- Related states give the same answers to every run of allowed operations that
the budget is enough for, and are related afterwards. -/
theorem refines {R : Nat → σ → τ → Prop} {allowed : ι → Prop}
    (step : ∀ n s t op, R (n + 1) s t → allowed op →
      R n (M.step s op).1 (N.step t op).1 ∧ (M.step s op).2 = (N.step t op).2)
    {n : Nat} {s : σ} {t : τ} {ops : List ι} (start : R (n + ops.length) s t)
    (all : ∀ op ∈ ops, allowed op) :
    R n (M.run s ops).1 (N.run t ops).1 ∧ (M.run s ops).2 = (N.run t ops).2 := by
  induction ops generalizing s t with
  | nil => exact ⟨start, rfl⟩
  | cons op ops ih =>
      obtain ⟨related, answer⟩ := step _ s t op start (all op (by simp))
      obtain ⟨last, answers⟩ := ih related fun op' mem => all op' (List.mem_cons_of_mem _ mem)
      rw [run_cons, run_cons]
      exact ⟨last, by simp only [answer, answers]⟩

end Machine

end Program
