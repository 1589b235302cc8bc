import Mathlib.Data.List.Range
import Mathlib.Logic.Function.Basic

/-!
Outcomes of programs that carry a state and may stop early.

A program is an `EStateM ε σ α`: it returns a value in a new state, or stops
with a reason `ε` and the state it had reached. `Ensures x s Q A` says that
`x`, started in `s`, ends in `Q` if it returns and in `A` if it stops. The
rules follow the program: one for each way of putting programs together, one
for a counting loop with an invariant and one for a counting loop that walks
along states known in advance.
-/

namespace Program

variable {ε σ α β γ : Type}

/-- The program `x`, started in `s`, returns in `Q` or stops in `A`. -/
def Ensures (x : EStateM ε σ α) (s : σ) (Q : α → σ → Prop) (A : ε → σ → Prop) : Prop :=
  match x s with
  | .ok a s' => Q a s'
  | .error e s' => A e s'

/-! ### Running programs -/

@[simp] theorem run_pure (a : α) (s : σ) : (pure a : EStateM ε σ α) s = .ok a s := rfl

@[simp] theorem run_get (s : σ) : (get : EStateM ε σ σ) s = .ok s s := rfl

@[simp] theorem run_modify (f : σ → σ) (s : σ) :
    (modify f : EStateM ε σ PUnit) s = .ok ⟨⟩ (f s) := rfl

@[simp] theorem run_throw (e : ε) (s : σ) : (throw e : EStateM ε σ α) s = .error e s := rfl

/-- A bind runs its first program, and its second one only if the first has
returned. -/
theorem run_bind (x : EStateM ε σ α) (f : α → EStateM ε σ β) (s : σ) :
    (x >>= f) s = match x s with
      | .ok a s' => f a s'
      | .error e s' => .error e s' := by
  change EStateM.bind x f s = _
  unfold EStateM.bind
  cases x s <;> rfl

/-- A bind whose first program returns is its second program. -/
theorem run_bind_ok {x : EStateM ε σ α} {s s' : σ} {a : α} (h : x s = .ok a s')
    (f : α → EStateM ε σ β) : (x >>= f) s = f a s' := by
  rw [run_bind, h]

/-- The two returns of a bind, one after the other. -/
theorem ok_bind {x : EStateM ε σ α} {f : α → EStateM ε σ β} {s t u : σ} {a : α} {b : β}
    (first : x s = .ok a t) (second : f a t = .ok b u) : (x >>= f) s = .ok b u :=
  (run_bind_ok first f).trans second

theorem ok_ite_true {c : Prop} [Decidable c] {x y : EStateM ε σ α} {s t : σ} {a : α} (h : c)
    (run : x s = .ok a t) : (if c then x else y) s = .ok a t := by
  rw [if_pos h]
  exact run

theorem ok_ite_false {c : Prop} [Decidable c] {x y : EStateM ε σ α} {s t : σ} {a : α} (h : ¬c)
    (run : y s = .ok a t) : (if c then x else y) s = .ok a t := by
  rw [if_neg h]
  exact run

/-- What follows a branch follows each of its sides. -/
theorem ite_bind (c : Prop) [Decidable c] (x y : EStateM ε σ α) (f : α → EStateM ε σ β) :
    (if c then x else y) >>= f = if c then x >>= f else y >>= f := by
  split
  · rfl
  · rfl

/-- Two runs that end alike go on alike. -/
theorem run_bind_congr {x y : EStateM ε σ α} {s t : σ} (same : x s = y t)
    (f : α → EStateM ε σ β) : (x >>= f) s = (y >>= f) t := by
  rw [run_bind, run_bind, same]

/-- A bind returns exactly when both of its programs do. -/
theorem bind_ok_iff {x : EStateM ε σ α} {f : α → EStateM ε σ β} {s t : σ} {b : β} :
    (x >>= f) s = .ok b t ↔ ∃ a s', x s = .ok a s' ∧ f a s' = .ok b t := by
  rw [run_bind]
  cases x s with
  | ok a s' => simp
  | error e s' => simp

/-- A bind stops where its first program does, or where its second one does. -/
theorem bind_error_iff {x : EStateM ε σ α} {f : α → EStateM ε σ β} {s t : σ} {e : ε} :
    (x >>= f) s = .error e t ↔
      x s = .error e t ∨ ∃ a s', x s = .ok a s' ∧ f a s' = .error e t := by
  rw [run_bind]
  cases x s with
  | ok a s' => simp
  | error e' s' => simp

/-! ### Rules for outcomes -/

section Rules

variable {s : σ} {Q : α → σ → Prop} {A : ε → σ → Prop}

@[simp] theorem ensures_pure (a : α) : Ensures (pure a : EStateM ε σ α) s Q A ↔ Q a s := Iff.rfl

@[simp] theorem ensures_get {Q : σ → σ → Prop} :
    Ensures (get : EStateM ε σ σ) s Q A ↔ Q s s := Iff.rfl

@[simp] theorem ensures_modify (f : σ → σ) {Q : PUnit → σ → Prop} :
    Ensures (modify f : EStateM ε σ PUnit) s Q A ↔ Q ⟨⟩ (f s) := Iff.rfl

@[simp] theorem ensures_throw (e : ε) :
    Ensures (throw e : EStateM ε σ α) s Q A ↔ A e s := Iff.rfl

/-- What a bind ensures is what its first program ensures for the second. -/
@[simp] theorem ensures_bind (x : EStateM ε σ α) (f : α → EStateM ε σ β) {Q : β → σ → Prop} :
    Ensures (x >>= f) s Q A ↔ Ensures x s (fun a s' => Ensures (f a) s' Q A) A := by
  unfold Ensures
  rw [run_bind]
  cases x s <;> rfl

theorem ensures_ite (c : Prop) [Decidable c] (x y : EStateM ε σ α) :
    Ensures (if c then x else y) s Q A ↔ (c → Ensures x s Q A) ∧ (¬c → Ensures y s Q A) := by
  by_cases h : c
  · simp [h]
  · simp [h]

theorem Ensures.pure {a : α} (h : Q a s) : Ensures (pure a : EStateM ε σ α) s Q A := h

theorem Ensures.get {Q : σ → σ → Prop} (h : Q s s) : Ensures (get : EStateM ε σ σ) s Q A := h

theorem Ensures.modify {f : σ → σ} {Q : PUnit → σ → Prop} (h : Q ⟨⟩ (f s)) :
    Ensures (modify f : EStateM ε σ PUnit) s Q A := h

theorem Ensures.throw {e : ε} (h : A e s) : Ensures (throw e : EStateM ε σ α) s Q A := h

/-- Each side may assume what the condition says. -/
theorem Ensures.ite {c : Prop} [Decidable c] {x y : EStateM ε σ α}
    (hx : c → Ensures x s Q A) (hy : ¬c → Ensures y s Q A) :
    Ensures (if c then x else y) s Q A :=
  (ensures_ite c x y).mpr ⟨hx, hy⟩

/-- The rule of sequence: what the first program ensures is what the second one
begins with. Both may stop, and for the same reasons. -/
theorem Ensures.bind {x : EStateM ε σ α} {f : α → EStateM ε σ β} {R : β → σ → Prop}
    (hx : Ensures x s Q A) (hf : ∀ a s', Q a s' → Ensures (f a) s' R A) :
    Ensures (x >>= f) s R A := by
  rw [ensures_bind]
  unfold Ensures at hx ⊢
  cases h : x s with
  | ok a s' =>
      rw [h] at hx
      exact hf a s' hx
  | error e s' =>
      rw [h] at hx
      exact hx

/-- The rule of consequence, for returns and for stops. -/
theorem Ensures.mono {x : EStateM ε σ α} {Q' : α → σ → Prop} {A' : ε → σ → Prop}
    (h : Ensures x s Q A) (hQ : ∀ a s', Q a s' → Q' a s') (hA : ∀ e s', A e s' → A' e s') :
    Ensures x s Q' A' := by
  unfold Ensures at h ⊢
  cases hx : x s with
  | ok a s' =>
      rw [hx] at h
      exact hQ a s' h
  | error e s' =>
      rw [hx] at h
      exact hA e s' h

theorem Ensures.of_ok {x : EStateM ε σ α} {a : α} {s' : σ} (h : x s = .ok a s')
    (hQ : Q a s') : Ensures x s Q A := by
  unfold Ensures
  rw [h]
  exact hQ

/-- A bind whose first program is known to return. -/
theorem Ensures.step {x : EStateM ε σ α} {f : α → EStateM ε σ β} {a : α} {t : σ}
    {Q : β → σ → Prop} (h : x s = .ok a t) (rest : Ensures (f a) t Q A) :
    Ensures (x >>= f) s Q A := by
  rw [ensures_bind]
  exact .of_ok h rest

/-- What a bind ensures whose first program is known to return. -/
theorem ensures_step {x : EStateM ε σ α} {f : α → EStateM ε σ β} {a : α} {t : σ}
    {Q : β → σ → Prop} (h : x s = .ok a t) : Ensures (x >>= f) s Q A ↔ Ensures (f a) t Q A := by
  unfold Ensures
  rw [run_bind_ok h]

/-- What a bind ensures whose first program is known to stop. -/
theorem ensures_stop {x : EStateM ε σ α} {f : α → EStateM ε σ β} {e : ε} {t : σ}
    {Q : β → σ → Prop} (h : x s = .error e t) : Ensures (x >>= f) s Q A ↔ A e t := by
  unfold Ensures
  rw [run_bind, h]

theorem Ensures.of_error {x : EStateM ε σ α} {e : ε} {s' : σ} (h : x s = .error e s')
    (hA : A e s') : Ensures x s Q A := by
  unfold Ensures
  rw [h]
  exact hA

/-- Every outcome is something. -/
theorem Ensures.trivially (x : EStateM ε σ α) (s : σ) :
    Ensures x s (fun _ _ => True) (fun _ _ => True) := by
  unfold Ensures
  cases x s <;> trivial

/-- Two things a program ensures. -/
theorem Ensures.and {x : EStateM ε σ α} {Q' : α → σ → Prop} {A' : ε → σ → Prop}
    (h : Ensures x s Q A) (k : Ensures x s Q' A') :
    Ensures x s (fun a t => Q a t ∧ Q' a t) (fun e t => A e t ∧ A' e t) := by
  unfold Ensures at h k ⊢
  cases hx : x s with
  | ok a s' =>
      rw [hx] at h k
      exact ⟨h, k⟩
  | error e s' =>
      rw [hx] at h k
      exact ⟨h, k⟩

/-- The return that a postcondition is about may be used to prove it. -/
theorem Ensures.mono_run {x : EStateM ε σ α} {Q' : α → σ → Prop} (h : Ensures x s Q A)
    (k : ∀ a t, x s = .ok a t → Q a t → Q' a t) : Ensures x s Q' A := by
  unfold Ensures at h ⊢
  cases hx : x s with
  | ok a t =>
      rw [hx] at h
      exact k a t hx h
  | error e t =>
      rw [hx] at h
      exact h

/-- What holds of every return holds of this one. -/
theorem Ensures.ok {x : EStateM ε σ α} {a : α} {s' : σ} (h : Ensures x s Q A)
    (hx : x s = .ok a s') : Q a s' := by
  unfold Ensures at h
  rw [hx] at h
  exact h

/-- A program that cannot stop returns. -/
theorem Ensures.returns {x : EStateM ε σ α} (h : Ensures x s Q fun _ _ => False) :
    ∃ a t, x s = .ok a t ∧ Q a t := by
  unfold Ensures at h
  cases hx : x s with
  | ok a t =>
      rw [hx] at h
      exact ⟨a, t, rfl, h⟩
  | error e t =>
      rw [hx] at h
      exact h.elim

theorem Ensures.error {x : EStateM ε σ α} {e : ε} {s' : σ} (h : Ensures x s Q A)
    (hx : x s = .error e s') : A e s' := by
  unfold Ensures at h
  rw [hx] at h
  exact h

/-- Running the program decides what it ensures. -/
instance (x : EStateM ε σ α) (s : σ) (Q : α → σ → Prop) (A : ε → σ → Prop)
    [∀ a t, Decidable (Q a t)] [∀ e t, Decidable (A e t)] : Decidable (Ensures x s Q A) :=
  match h : x s with
  | .ok a t => decidable_of_iff (Q a t) (by unfold Ensures; rw [h])
  | .error e t => decidable_of_iff (A e t) (by unfold Ensures; rw [h])

end Rules

-- The rules are all a proof needs; unfolding would run the program.
attribute [irreducible] Ensures

/-! ### Counting loops -/

/-- `for (i = lo; i < hi; i++) body(i)`. -/
def countUp (lo hi : Nat) (body : Nat → EStateM ε σ PUnit) : EStateM ε σ PUnit :=
  forM (List.range' lo (hi - lo)) body

theorem countUp_done {lo hi : Nat} (h : hi ≤ lo) (body : Nat → EStateM ε σ PUnit) :
    countUp lo hi body = pure ⟨⟩ := by
  simp [countUp, Nat.sub_eq_zero_of_le h]

theorem countUp_next {lo hi : Nat} (h : lo < hi) (body : Nat → EStateM ε σ PUnit) :
    countUp lo hi body = body lo >>= fun _ => countUp (lo + 1) hi body := by
  have split : hi - lo = (hi - (lo + 1)) + 1 := by omega
  simp only [countUp]
  rw [split, List.range'_succ, List.forM_cons]

/-- A loop does its first rounds and then the others. -/
theorem countUp_split {lo k hi : Nat} (low : lo ≤ k) (high : k ≤ hi)
    (body : Nat → EStateM ε σ PUnit) :
    countUp lo hi body = countUp lo k body >>= fun _ => countUp k hi body := by
  obtain ⟨n, rfl⟩ := Nat.exists_eq_add_of_le low
  induction n generalizing lo with
  | zero =>
      rw [Nat.add_zero, countUp_done (Nat.le_refl lo), pure_bind]
  | succ n ih =>
      have shift : lo + (n + 1) = lo + 1 + n := by omega
      rw [countUp_next (show lo < hi by omega), countUp_next (show lo < lo + (n + 1) by omega),
        bind_assoc, shift]
      exact congrArg _ (funext fun _ => ih (by omega) (by omega))

/-- The invariant rule: `I i` holds whenever the loop is about to do round `i`,
and `I hi` when it is over. A round may stop the loop, and then what is known is
`A`. -/
theorem Ensures.countUp {lo hi : Nat} {body : Nat → EStateM ε σ PUnit} {s : σ}
    {A : ε → σ → Prop} (I : Nat → σ → Prop) (le : lo ≤ hi) (start : I lo s)
    (round : ∀ i, lo ≤ i → i < hi → ∀ s', I i s' → Ensures (body i) s' (fun _ => I (i + 1)) A) :
    Ensures (Program.countUp lo hi body) s (fun _ => I hi) A := by
  obtain ⟨n, rfl⟩ := Nat.exists_eq_add_of_le le
  induction n generalizing lo s with
  | zero =>
      rw [countUp_done (Nat.le_of_eq (Nat.add_zero lo))]
      exact .pure start
  | succ n ih =>
      rw [countUp_next (by omega)]
      refine (round lo (Nat.le_refl lo) (by omega) s start).bind fun _ s' next => ?_
      have shift : lo + (n + 1) = lo + 1 + n := by omega
      rw [shift]
      refine ih next (by omega) fun i hi hlt t ht => ?_
      exact round i (by omega) (by omega) t ht

/-- A loop whose rounds each go from `path i` to `path (i + 1)` returns at the
end of the path. -/
theorem run_countUp {lo hi : Nat} {body : Nat → EStateM ε σ PUnit} (path : Nat → σ)
    (le : lo ≤ hi)
    (round : ∀ i, lo ≤ i → i < hi → body i (path i) = .ok ⟨⟩ (path (i + 1))) :
    countUp lo hi body (path lo) = .ok ⟨⟩ (path hi) := by
  obtain ⟨n, rfl⟩ := Nat.exists_eq_add_of_le le
  induction n generalizing lo with
  | zero =>
      rw [countUp_done (Nat.le_of_eq (Nat.add_zero lo))]
      rfl
  | succ n ih =>
      rw [countUp_next (by omega), run_bind_ok (round lo (Nat.le_refl lo) (by omega))]
      have shift : lo + (n + 1) = lo + 1 + n := by omega
      rw [shift]
      exact ih (by omega) fun i hi hlt => round i (by omega) (by omega)

/-! ### What every run preserves -/

/-- Wherever `x` ends, by return or by stop, the state is `R`-related to the
state it started in. -/
def Preserves (R : σ → σ → Prop) (x : EStateM ε σ α) : Prop :=
  ∀ s, Ensures x s (fun _ => R s) (fun _ => R s)

section Preserves

variable {R : σ → σ → Prop}

theorem Preserves.pure (refl : ∀ s, R s s) (a : α) : Preserves R (pure a : EStateM ε σ α) :=
  fun s => .pure (refl s)

theorem Preserves.modify {f : σ → σ} (h : ∀ s, R s (f s)) :
    Preserves R (modify f : EStateM ε σ PUnit) :=
  fun s => .modify (h s)

/-- Both programs stay in the relation, and a stop of the first is the end. -/
theorem Preserves.bind (trans : ∀ s t u, R s t → R t u → R s u) {x : EStateM ε σ α}
    {f : α → EStateM ε σ β} (hx : Preserves R x) (hf : ∀ a, Preserves R (f a)) :
    Preserves R (x >>= f) := by
  intro s
  rw [ensures_bind]
  refine (hx s).mono (fun a s' first => ?_) (fun _ _ first => first)
  exact (hf a s').mono (fun _ _ second => trans _ _ _ first second)
    (fun _ _ second => trans _ _ _ first second)

end Preserves

/-! ### Conditional outcomes -/

/-- `x` ensures `Q` or `A`, provided `P` holds of the state it ends in. -/
def EnsuresIf (P : σ → Prop) (x : EStateM ε σ α) (s : σ) (Q : α → σ → Prop)
    (A : ε → σ → Prop) : Prop :=
  Ensures x s (fun a t => P t → Q a t) (fun e t => P t → A e t)

/-- `P` cannot begin to hold: if it does afterwards, it did before. -/
abbrev Reflects (P : σ → Prop) (x : EStateM ε σ α) : Prop := Preserves (fun s t => P t → P s) x

section Conditional

variable {P : σ → Prop} {s : σ} {x : EStateM ε σ α} {Q : α → σ → Prop} {A : ε → σ → Prop}

theorem Ensures.conditional (h : Ensures x s Q A) : EnsuresIf P x s Q A :=
  h.mono (fun _ _ q _ => q) fun _ _ a _ => a

/-- The rule of consequence, under the same condition. -/
theorem EnsuresIf.mono {Q' : α → σ → Prop} {A' : ε → σ → Prop} (h : EnsuresIf P x s Q A)
    (hQ : ∀ a t, Q a t → Q' a t) (hA : ∀ e t, A e t → A' e t) : EnsuresIf P x s Q' A' :=
  Ensures.mono h (fun a t q p => hQ a t (q p)) fun e t a p => hA e t (a p)

/-- A condition that cannot begin to hold may be assumed from the start. -/
theorem EnsuresIf.from_start (reflects : Reflects P x) (h : P s → EnsuresIf P x s Q A) :
    EnsuresIf P x s Q A := by
  by_cases p : P s
  · exact h p
  · exact (reflects s).mono (fun _ _ back last => absurd (back last) p)
      fun _ _ back last => absurd (back last) p

/-- The second program runs under the first one's postcondition: if `P` holds in
the end, it held in between. -/
theorem EnsuresIf.bind {f : α → EStateM ε σ β} {R : β → σ → Prop} (hx : EnsuresIf P x s Q A)
    (reflects : ∀ a, Reflects P (f a)) (hf : ∀ a t, Q a t → EnsuresIf P (f a) t R A) :
    EnsuresIf P (x >>= f) s R A :=
  Ensures.bind hx fun a t q => EnsuresIf.from_start (reflects a) fun p => hf a t (q p)

/-- What a conditional outcome may be used for may assume the condition. -/
theorem EnsuresIf.keep (h : EnsuresIf P x s Q A) :
    EnsuresIf P x s (fun a t => Q a t ∧ P t) (fun e t => A e t ∧ P t) :=
  Ensures.mono h (fun _ _ q p => ⟨q p, p⟩) fun _ _ a p => ⟨a p, p⟩

/-- What holds of the first program carries over unconditionally. -/
theorem Ensures.bind_if {f : α → EStateM ε σ β} {R : β → σ → Prop} (hx : Ensures x s Q A)
    (hf : ∀ a t, Q a t → EnsuresIf P (f a) t R A) : EnsuresIf P (x >>= f) s R A :=
  Ensures.bind (hx.mono (fun _ _ q => q) fun _ _ a _ => a) hf

/-- A first program that is known to return can be left out. -/
theorem EnsuresIf.step {f : α → EStateM ε σ β} {a : α} {t : σ} {R : β → σ → Prop}
    (h : x s = .ok a t) (rest : EnsuresIf P (f a) t R A) : EnsuresIf P (x >>= f) s R A :=
  Ensures.step h rest

theorem EnsuresIf.ite {c : Prop} [Decidable c] {y : EStateM ε σ α}
    (hx : c → EnsuresIf P x s Q A) (hy : ¬c → EnsuresIf P y s Q A) :
    EnsuresIf P (if c then x else y) s Q A :=
  Ensures.ite hx hy

theorem EnsuresIf.pure {a : α} (h : P s → Q a s) :
    EnsuresIf P (pure a : EStateM ε σ α) s Q A :=
  Ensures.pure h

theorem EnsuresIf.of_ok {a : α} {t : σ} (h : x s = .ok a t) (hQ : P t → Q a t) :
    EnsuresIf P x s Q A :=
  Ensures.of_ok h hQ

end Conditional

end Program
