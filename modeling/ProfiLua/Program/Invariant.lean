import ProfiLua.Program.Outcome

/-!
Programs that keep an invariant and stop only for some reasons.

`Maintains I B x` says that `x`, started where `I` holds, ends where `I` holds,
and that a reason it stops for is in `B`. The rules follow the program; one that
reads the state may use the invariant of what it read (`Maintains.get`), and a
round of a loop the bounds of its index (`Maintains.countUp`).
-/

namespace Program

variable {ε σ α β : Type}

/-- Started in `I`, the program ends in `I`, and stops only for a reason in `B`. -/
def Maintains (I : σ → Prop) (B : ε → Prop) (x : EStateM ε σ α) : Prop :=
  ∀ s, I s → Ensures x s (fun _ t => I t) (fun e t => B e ∧ I t)

section Rules

variable {I : σ → Prop} {B : ε → Prop}

theorem Maintains.of_ensures {x : EStateM ε σ α}
    (h : ∀ s, I s → Ensures x s (fun _ t => I t) (fun e t => B e ∧ I t)) : Maintains I B x := h

theorem Maintains.ensures {x : EStateM ε σ α} (h : Maintains I B x) {s : σ} (inv : I s) :
    Ensures x s (fun _ t => I t) (fun e t => B e ∧ I t) := h s inv

theorem Maintains.pure (a : α) : Maintains I B (pure a : EStateM ε σ α) :=
  fun _ inv => .pure inv

theorem Maintains.throw {e : ε} (allowed : B e) : Maintains I B (throw e : EStateM ε σ α) :=
  fun _ inv => .throw ⟨allowed, inv⟩

theorem Maintains.modify {f : σ → σ} (keeps : ∀ s, I s → I (f s)) :
    Maintains I B (modify f : EStateM ε σ PUnit) :=
  fun s inv => .modify (keeps s inv)

/-- The invariant holds between two programs, so nothing else need be said of
it. -/
theorem Maintains.bind {x : EStateM ε σ α} {f : α → EStateM ε σ β} (first : Maintains I B x)
    (second : ∀ a, Maintains I B (f a)) : Maintains I B (x >>= f) :=
  fun s inv => (first s inv).bind fun a t inv' => second a t inv'

/-- Reading the state: the program goes on knowing the invariant of what it
read. -/
theorem Maintains.get {f : σ → EStateM ε σ α} (rest : ∀ s, I s → Maintains I B (f s)) :
    Maintains I B (get >>= f) :=
  fun s inv => .step (run_get s) (rest s inv s inv)

theorem Maintains.ite {c : Prop} [Decidable c] {x y : EStateM ε σ α}
    (yes : c → Maintains I B x) (no : ¬c → Maintains I B y) :
    Maintains I B (if c then x else y) :=
  fun s inv => .ite (fun h => yes h s inv) fun h => no h s inv

/-- A round of a loop may assume the bounds of its index. -/
theorem Maintains.countUp {lo hi : Nat} {body : Nat → EStateM ε σ PUnit}
    (round : ∀ i, lo ≤ i → i < hi → Maintains I B (body i)) :
    Maintains I B (Program.countUp lo hi body) := by
  intro s inv
  by_cases le : lo ≤ hi
  · exact Ensures.countUp (fun _ => I) le inv fun i low high t inv' => round i low high t inv'
  · rw [countUp_done (by omega)]
    exact .pure inv

end Rules

-- the rules are all that is used of it; unfolded, it would be run
attribute [irreducible] Maintains

end Program
