import ProfiLua.Program.Run

/-!
Two runs of one program from related states.

`Couples R S x` says that two runs of `x` from `R`-related states end alike:
both return the same value in `S`-related states, or both stop for the same
reason. The rules follow the program, as those for outcomes do; a program that
reads the state is coupled if what it goes on with is the same for related
states (`Couples.get`).
-/

namespace Program

variable {ε σ ι ρ α β : Type}

/-- Both returned the same value, in related states, or both stopped for the same
reason. -/
def Alike (S : σ → σ → Prop) : EStateM.Result ε σ α → EStateM.Result ε σ α → Prop
  | .ok a s, .ok b t => a = b ∧ S s t
  | .error e _, .error e' _ => e = e'
  | _, _ => False

/-- Two runs from `R`-related states end alike. -/
def Couples (R S : σ → σ → Prop) (x : EStateM ε σ α) : Prop :=
  ∀ s t, R s t → Alike S (x s) (x t)

/-- Two runs from related states keep them related. -/
abbrev Lockstep (R : σ → σ → Prop) (x : EStateM ε σ α) : Prop := Couples R R x

section Alike

variable {S T : σ → σ → Prop}

theorem Alike.ok_left {a : α} {s : σ} {y : EStateM.Result ε σ α} (h : Alike S (.ok a s) y) :
    ∃ t, y = .ok a t ∧ S s t := by
  cases y with
  | ok b t =>
      obtain ⟨rfl, related⟩ := h
      exact ⟨t, rfl, related⟩
  | error e t => exact h.elim

theorem Alike.error_left {e : ε} {s : σ} {y : EStateM.Result ε σ α}
    (h : Alike S (.error e s) y) : ∃ t, y = .error e t := by
  cases y with
  | ok b t => exact h.elim
  | error e' t =>
      obtain rfl : e = e' := h
      exact ⟨t, rfl⟩

theorem Alike.mono {x y : EStateM.Result ε σ α} (h : Alike S x y) (weaker : ∀ s t, S s t → T s t) :
    Alike T x y := by
  cases x with
  | ok a s =>
      obtain ⟨t, rfl, related⟩ := h.ok_left
      exact ⟨rfl, weaker s t related⟩
  | error e s =>
      obtain ⟨t, rfl⟩ := h.error_left
      exact rfl

end Alike

section Rules

variable {R S T : σ → σ → Prop}

theorem Couples.pure (a : α) (weaker : ∀ s t, R s t → S s t) :
    Couples R S (pure a : EStateM ε σ α) :=
  fun s t related => ⟨rfl, weaker s t related⟩

theorem Couples.modify {f : σ → σ} (keeps : ∀ s t, R s t → S (f s) (f t)) :
    Couples R S (modify f : EStateM ε σ PUnit) :=
  fun s t related => ⟨rfl, keeps s t related⟩

theorem Couples.throw (e : ε) : Couples R S (throw e : EStateM ε σ α) :=
  fun _ _ _ => rfl

/-- The rule of sequence for two runs: they are in the same program until one of
them stops, and then both have. -/
theorem Couples.bind {x : EStateM ε σ α} {f : α → EStateM ε σ β} (first : Couples R S x)
    (second : ∀ a, Couples S T (f a)) : Couples R T (x >>= f) := by
  intro s t related
  have alike := first s t related
  rw [run_bind, run_bind]
  cases left : x s with
  | ok a s' =>
      rw [left] at alike
      obtain ⟨t', right, related'⟩ := alike.ok_left
      rw [right]
      exact second a s' t' related'
  | error e s' =>
      rw [left] at alike
      obtain ⟨t', right⟩ := alike.error_left
      rw [right]
      exact rfl

/-- Reading the state: both runs must go on with the same program. -/
theorem Couples.get {f : σ → EStateM ε σ α} (same : ∀ s t, R s t → f s = f t)
    (rest : ∀ s, Couples R S (f s)) : Couples R S (get >>= f) := by
  intro s t related
  rw [run_bind_ok (run_get s), run_bind_ok (run_get t), same s t related]
  exact rest t s t related

theorem Couples.ite {c : Prop} [Decidable c] {x y : EStateM ε σ α} (hx : Couples R S x)
    (hy : Couples R S y) : Couples R S (if c then x else y) := by
  split
  · exact hx
  · exact hy

/-- The rule of consequence, for pairs of states. -/
theorem Couples.mono {R' S' : σ → σ → Prop} {x : EStateM ε σ α} (h : Couples R S x)
    (stronger : ∀ s t, R' s t → R s t) (weaker : ∀ s t, S s t → S' s t) : Couples R' S' x :=
  fun s t related => (h s t (stronger s t related)).mono weaker

/-- What is known of each run alone may be used for both. -/
theorem Couples.combine {S' : σ → σ → Prop} {P : σ → α → σ → Prop} {x : EStateM ε σ α}
    (h : Couples R S x) (left : ∀ s t, R s t → Ensures x s (P s) fun _ _ => True)
    (right : ∀ s t, R s t → Ensures x t (P t) fun _ _ => True)
    (both : ∀ s t a s' t', R s t → S s' t' → P s a s' → P t a t' → S' s' t') :
    Couples R S' x := by
  intro s t related
  have alike := h s t related
  cases run : x s with
  | ok a s' =>
      rw [run] at alike
      obtain ⟨t', run', related'⟩ := alike.ok_left
      rw [run']
      exact ⟨rfl, both s t a s' t' related related' ((left s t related).ok run)
        ((right s t related).ok run')⟩
  | error e s' =>
      rw [run] at alike
      obtain ⟨t', run'⟩ := alike.error_left
      rw [run']
      exact rfl

/-- A loop whose round `i` leads from `I i` to `I (i + 1)`. -/
theorem Couples.countUp {lo hi : Nat} {body : Nat → EStateM ε σ PUnit} (I : Nat → σ → σ → Prop)
    (le : lo ≤ hi) (round : ∀ i, lo ≤ i → i < hi → Couples (I i) (I (i + 1)) (body i)) :
    Couples (I lo) (I hi) (Program.countUp lo hi body) := by
  obtain ⟨n, rfl⟩ := Nat.exists_eq_add_of_le le
  induction n generalizing lo with
  | zero =>
      rw [Nat.add_zero, countUp_done (Nat.le_refl lo)]
      exact .pure _ fun _ _ related => related
  | succ n ih =>
      have shift : lo + (n + 1) = lo + 1 + n := by omega
      rw [countUp_next (by omega), shift]
      refine (round lo (Nat.le_refl lo) (by omega)).bind fun _ => ih (by omega) fun i low lt => ?_
      exact round i (by omega) (by omega)

/-- A loop keeps two runs related if each of its rounds does. -/
theorem Lockstep.countUp {lo hi : Nat} {body : Nat → EStateM ε σ PUnit}
    (round : ∀ i, Lockstep R (body i)) : Lockstep R (Program.countUp lo hi body) := by
  by_cases le : lo ≤ hi
  · exact Couples.countUp (fun _ => R) le fun i _ _ => round i
  · rw [countUp_done (by omega)]
    exact .pure _ fun _ _ related => related

theorem Lockstep.runAll {step : ι → EStateM ε σ ρ} {requests : List ι}
    (request : ∀ i ∈ requests, Lockstep R (step i)) :
    Lockstep R (Program.runAll step requests) := by
  induction requests with
  | nil => exact .pure _ fun _ _ related => related
  | cons i rest ih =>
      refine Couples.bind (request i List.mem_cons_self) fun r => ?_
      refine Couples.bind (ih fun j mem => request j (List.mem_cons_of_mem i mem)) fun rs => ?_
      exact .pure _ fun _ _ related => related

end Rules

section Irreducible

variable {R S : σ → σ → Prop} {x : EStateM ε σ α}

theorem Couples.alike (h : Couples R S x) {s t : σ} (related : R s t) : Alike S (x s) (x t) :=
  h s t related

theorem Couples.of_alike (h : ∀ s t, R s t → Alike S (x s) (x t)) : Couples R S x := h

end Irreducible

-- the rules are all that is used of it; unfolded, it would be run
attribute [irreducible] Couples

end Program
