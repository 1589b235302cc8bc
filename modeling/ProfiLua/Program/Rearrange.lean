import Mathlib.Logic.Equiv.Basic
import Mathlib.Order.Interval.Set.Defs
import Mathlib.Data.Int.Order.Basic

/-!
Values at integer places that are put in another order.

`Rearranged l u a b`: from `a` to `b`, the values between `l` and `u` have changed
places among themselves, and nothing else has. `swapAt` is the step that does it.
-/

namespace Program

variable {α : Type} {a b c : ℤ → α} {i j k l u : ℤ}

/-- Two values change places. -/
def swapAt (a : ℤ → α) (i j : ℤ) : ℤ → α := fun k => a (Equiv.swap i j k)

@[simp] theorem swapAt_left (a : ℤ → α) (i j : ℤ) : swapAt a i j i = a j := by
  rw [swapAt, Equiv.swap_apply_left]

@[simp] theorem swapAt_right (a : ℤ → α) (i j : ℤ) : swapAt a i j j = a i := by
  rw [swapAt, Equiv.swap_apply_right]

theorem swapAt_other (a : ℤ → α) (hi : k ≠ i) (hj : k ≠ j) : swapAt a i j k = a k := by
  rw [swapAt, Equiv.swap_apply_of_ne_of_ne hi hj]

/-- Writing each value to the place of the other. -/
theorem update_update_eq_swapAt (a : ℤ → α) (i j : ℤ) :
    Function.update (Function.update a i (a j)) j (a i) = swapAt a i j := by
  funext k
  by_cases hj : k = j
  · rw [hj, Function.update_self, swapAt_right]
  · rw [Function.update_of_ne hj]
    by_cases hi : k = i
    · rw [hi, Function.update_self, swapAt_left]
    · rw [Function.update_of_ne hi, swapAt_other a hi hj]

/-- The values from `l` to `u` in another order, the others in place. -/
def Rearranged (l u : ℤ) (a b : ℤ → α) : Prop :=
  ∃ σ : Equiv.Perm ℤ, (∀ k, k < l ∨ u < k → σ k = k) ∧ ∀ k, b k = a (σ k)

namespace Rearranged

theorem refl (l u : ℤ) (a : ℤ → α) : Rearranged l u a a :=
  ⟨Equiv.refl ℤ, fun _ _ => rfl, fun _ => rfl⟩

theorem trans (first : Rearranged l u a b) (second : Rearranged l u b c) :
    Rearranged l u a c := by
  obtain ⟨σ, fixed, values⟩ := first
  obtain ⟨τ, fixed', values'⟩ := second
  refine ⟨τ.trans σ, ?_, ?_⟩
  · intro k outside
    rw [Equiv.trans_apply, fixed' k outside, fixed k outside]
  · intro k
    rw [values', values, Equiv.trans_apply]

theorem mono {l' u' : ℤ} (some : Rearranged l u a b) (low : l' ≤ l) (high : u ≤ u') :
    Rearranged l' u' a b := by
  obtain ⟨σ, fixed, values⟩ := some
  refine ⟨σ, ?_, values⟩
  intro k outside
  exact fixed k (by omega)

theorem swapAt (a : ℤ → α) (hi : l ≤ i ∧ i ≤ u) (hj : l ≤ j ∧ j ≤ u) :
    Rearranged l u a (swapAt a i j) := by
  refine ⟨Equiv.swap i j, ?_, fun _ => rfl⟩
  intro k outside
  exact Equiv.swap_apply_of_ne_of_ne (by omega) (by omega)

theorem outside (some : Rearranged l u a b) (out : k < l ∨ u < k) : b k = a k := by
  obtain ⟨σ, fixed, values⟩ := some
  rw [values, fixed k out]

/-- A value inside comes from a place inside. -/
theorem inside (some : Rearranged l u a b) (low : l ≤ k) (high : k ≤ u) :
    ∃ m, l ≤ m ∧ m ≤ u ∧ b k = a m := by
  obtain ⟨σ, fixed, values⟩ := some
  refine ⟨σ k, ?_, ?_, values k⟩
  all_goals
    by_contra out
    have same : σ k = k := σ.injective (fixed (σ k) (by omega))
    omega

/-- What all values inside have, they keep. -/
theorem all {P : α → Prop} (some : Rearranged l u a b) (each : ∀ k, l ≤ k → k ≤ u → P (a k)) :
    ∀ k, l ≤ k → k ≤ u → P (b k) := by
  intro k low high
  obtain ⟨m, low', high', same⟩ := some.inside low high
  rw [same]
  exact each m low' high'

end Rearranged

end Program
