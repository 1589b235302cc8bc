import ProfiLua.Program.Outcome

/-!
Runs: a list of requests to one stateful program, under a protocol.

A protocol is a partial transition function on phases. If every request the
protocol allows keeps the invariant of its phase, so does every run
(`Ensures.runAll`); the invariant may speak of a value kept beside the run
(`observe`). `Along` says that a condition holds of each request in the
state it is made in; when breaking the condition is exactly what stops a
request with a bad reason, a run avoids bad stops exactly when the condition
holds along it (`runAll_avoids_iff`).
-/

namespace Program

variable {ε σ ι ρ φ : Type}

/-- The requests, in order; the run stops where one of them does. -/
def runAll (step : ι → EStateM ε σ ρ) : List ι → EStateM ε σ (List ρ)
  | [] => pure []
  | i :: rest => step i >>= fun r => runAll step rest >>= fun rs => pure (r :: rs)

/-- The phase a list of requests leads to, if the protocol allows them all. -/
def follow (next : φ → ι → Option φ) : φ → List ι → Option φ
  | phase, [] => some phase
  | phase, i :: rest =>
      match next phase i with
      | some phase' => follow next phase' rest
      | none => none

/-- `C` holds of every request of the run in the state it is made in. -/
def Along (step : ι → EStateM ε σ ρ) (C : σ → ι → Prop) : List ι → σ → Prop
  | [], _ => True
  | i :: rest, s => C s i ∧ ∀ r t, step i s = .ok r t → Along step C rest t

/-- Making the requests decides what holds along them. -/
instance Along.decidable (step : ι → EStateM ε σ ρ) (C : σ → ι → Prop) [∀ s i, Decidable (C s i)] :
    ∀ requests s, Decidable (Along step C requests s)
  | [], _ => .isTrue trivial
  | i :: rest, s =>
      match outcome : step i s with
      | .ok r t =>
          have := Along.decidable step C rest t
          decidable_of_iff (C s i ∧ Along step C rest t)
            ⟨fun ⟨now, later⟩ => ⟨now, fun r' t' same => by
              rw [outcome] at same
              cases same
              exact later⟩, fun ⟨now, later⟩ => ⟨now, later r t outcome⟩⟩
      | .error e t =>
          decidable_of_iff (C s i)
            ⟨fun now => ⟨now, fun r' t' same => by
              rw [outcome] at same
              cases same⟩, fun both => both.1⟩

/-- A value kept beside the run: `update` sees each request and the state it is
made in. -/
def observe {γ : Type} (step : ι → EStateM ε σ ρ) (update : γ → σ → ι → γ) : γ → List ι → σ → γ
  | g, [], _ => g
  | g, i :: rest, s =>
      match step i s with
      | .ok _ t => observe step update (update g s i) rest t
      | .error _ _ => update g s i

section Runs

variable {step : ι → EStateM ε σ ρ}

@[simp] theorem runAll_nil (s : σ) : runAll step [] s = .ok [] s := rfl

theorem runAll_cons (i : ι) (rest : List ι) :
    runAll step (i :: rest) =
      step i >>= fun r => runAll step rest >>= fun rs => pure (r :: rs) := rfl

theorem runAll_cons_ok {i : ι} {rest : List ι} {s u : σ} {rs : List ρ} :
    runAll step (i :: rest) s = .ok rs u ↔
      ∃ r t tail, step i s = .ok r t ∧ runAll step rest t = .ok tail u ∧ rs = r :: tail := by
  rw [runAll_cons, bind_ok_iff]
  constructor
  · rintro ⟨r, t, first, second⟩
    obtain ⟨tail, u', run, last⟩ := bind_ok_iff.mp second
    cases last
    exact ⟨r, t, tail, first, run, rfl⟩
  · rintro ⟨r, t, tail, first, run, rfl⟩
    exact ⟨r, t, first, bind_ok_iff.mpr ⟨tail, u, run, rfl⟩⟩

/-- A run stops where its first request does, or where the rest does. -/
theorem runAll_cons_error {i : ι} {rest : List ι} {s u : σ} {e : ε} :
    runAll step (i :: rest) s = .error e u ↔
      step i s = .error e u ∨ ∃ r t, step i s = .ok r t ∧ runAll step rest t = .error e u := by
  rw [runAll_cons, bind_error_iff]
  refine or_congr Iff.rfl (exists_congr fun r => exists_congr fun t => and_congr Iff.rfl ?_)
  rw [bind_error_iff]
  simp

theorem follow_append {next : φ → ι → Option φ} {phase last : φ} {front back : List ι} :
    follow next phase (front ++ back) = some last ↔
      ∃ middle, follow next phase front = some middle ∧ follow next middle back = some last := by
  induction front generalizing phase with
  | nil => simp [follow]
  | cons i rest ih =>
      simp only [List.cons_append, follow]
      cases next phase i with
      | none => simp
      | some phase' => exact ih

variable {next : φ → ι → Option φ} {Inv : φ → σ → Prop} {A : ε → σ → Prop}

theorem reflects_runAll {P : σ → Prop} (reflects : ∀ i, Reflects P (step i))
    (requests : List ι) : Reflects P (runAll step requests) := by
  induction requests with
  | nil => exact .pure (fun _ => id) _
  | cons i rest ih =>
      refine .bind (fun _ _ _ h k p => h (k p)) (reflects i) fun _ => ?_
      exact .bind (fun _ _ _ h k p => h (k p)) ih fun _ => .pure (fun _ => id) _

theorem Along.trivially (requests : List ι) (s : σ) :
    Along step (fun _ _ => True) requests s := by
  induction requests generalizing s with
  | nil => trivial
  | cons i rest ih => exact ⟨trivial, fun _ t _ => ih t⟩

/-- What one request preserves about the state and a value kept beside it, a run
preserves. -/
theorem Ensures.runAll_observed {γ : Type} {update : γ → σ → ι → γ} {Inv : φ → γ → σ → Prop}
    (request : ∀ phase i phase' g s, next phase i = some phase' → Inv phase g s →
      Ensures (step i) s (fun _ t => Inv phase' (update g s i) t) A)
    {requests : List ι} {phase last : φ} {g : γ} {s : σ}
    (protocol : follow next phase requests = some last) (inv : Inv phase g s) :
    Ensures (Program.runAll step requests) s
      (fun _ t => Inv last (observe step update g requests s) t) A := by
  induction requests generalizing phase g s with
  | nil =>
      cases protocol
      exact .pure inv
  | cons i rest ih =>
      unfold follow at protocol
      cases move : next phase i with
      | none => simp [move] at protocol
      | some phase' =>
          rw [move] at protocol
          refine ((request phase i phase' g s move inv).mono_run fun r t run inv' =>
            And.intro inv' run).bind fun r t ⟨inv', run⟩ => ?_
          have same : observe step update g (i :: rest) s =
              observe step update (update g s i) rest t := by
            simp only [observe, run]
          rw [same]
          exact (ih protocol inv').bind fun _ _ done => .pure done

/-- What a request, made under its condition, preserves about the history and the
state, a run preserves. The history pairs the requests with their replies. -/
theorem Ensures.runAll_history {C : σ → ι → Prop} {I : List (ι × ρ) → σ → Prop}
    (request : ∀ history i s, C s i → I history s →
      Ensures (step i) s (fun r t => I (history ++ [(i, r)]) t) A)
    {requests : List ι} {s : σ} (along : Along step C requests s) (history : List (ι × ρ))
    (start : I history s) :
    Ensures (Program.runAll step requests) s
      (fun replies t => I (history ++ requests.zip replies) t) A := by
  induction requests generalizing s history with
  | nil => exact .pure (by simpa using start)
  | cons i rest ih =>
      refine ((request history i s along.1 start).mono_run fun r t run next =>
        And.intro next (along.2 r t run)).bind fun r t ⟨next, later⟩ => ?_
      refine (ih later _ next).bind fun replies u done => .pure ?_
      rw [List.append_assoc, List.singleton_append] at done
      exact done

theorem Along.mono {C D : σ → ι → Prop} (weaker : ∀ s i, C s i → D s i) {requests : List ι} {s : σ}
    (along : Along step C requests s) : Along step D requests s := by
  induction requests generalizing s with
  | nil => trivial
  | cons i rest ih => exact ⟨weaker s i along.1, fun r t outcome => ih (along.2 r t outcome)⟩

/-- What one request, made under its condition, preserves in its phase, a run that
keeps to the condition preserves. -/
theorem Ensures.runAll_along {C : σ → ι → Prop}
    (request : ∀ phase i phase' s, next phase i = some phase' → C s i → Inv phase s →
      Ensures (step i) s (fun _ t => Inv phase' t) A)
    {requests : List ι} {phase last : φ} {s : σ}
    (protocol : follow next phase requests = some last) (along : Along step C requests s)
    (inv : Inv phase s) :
    Ensures (Program.runAll step requests) s (fun _ t => Inv last t) A := by
  induction requests generalizing phase s with
  | nil =>
      cases protocol
      exact .pure inv
  | cons i rest ih =>
      unfold follow at protocol
      cases move : next phase i with
      | none => simp [move] at protocol
      | some phase' =>
          rw [move] at protocol
          refine ((request phase i phase' s move along.1 inv).mono_run fun r t run inv' =>
            And.intro inv' (along.2 r t run)).bind fun r t ⟨inv', later⟩ => ?_
          exact (ih protocol later inv').bind fun _ _ done => .pure done

/-- What every request preserves, in its phase, a whole run preserves. -/
theorem Ensures.runAll
    (request : ∀ phase i phase' s, next phase i = some phase' → Inv phase s →
      Ensures (step i) s (fun _ t => Inv phase' t) A)
    {requests : List ι} {phase last : φ} {s : σ}
    (protocol : follow next phase requests = some last) (inv : Inv phase s) :
    Ensures (Program.runAll step requests) s (fun _ t => Inv last t) A :=
  Ensures.runAll_along (C := fun _ _ => True)
    (fun phase i phase' s move _ inv => request phase i phase' s move inv) protocol
    (Along.trivially requests s) inv

/-- The same for a condition on the state the run ends in, when `C` holds along
the run. -/
theorem EnsuresIf.runAll_along {P : σ → Prop} {C : σ → ι → Prop}
    (reflects : ∀ i, Reflects P (step i))
    (request : ∀ phase i phase' s, next phase i = some phase' → C s i → Inv phase s →
      EnsuresIf P (step i) s (fun _ t => Inv phase' t) A)
    {requests : List ι} {phase last : φ} {s : σ}
    (protocol : follow next phase requests = some last) (along : Along step C requests s)
    (inv : Inv phase s) :
    EnsuresIf P (Program.runAll step requests) s (fun _ t => Inv last t) A := by
  induction requests generalizing phase s with
  | nil =>
      cases protocol
      exact .pure fun _ => inv
  | cons i rest ih =>
      unfold follow at protocol
      cases move : next phase i with
      | none => simp [move] at protocol
      | some phase' =>
          rw [move] at protocol
          have later : ∀ r, Reflects P
              (Program.runAll step rest >>= fun rs => Pure.pure (r :: rs)) := fun r =>
            .bind (fun _ _ _ h k p => h (k p)) (reflects_runAll reflects rest) fun _ =>
              .pure (fun _ => id) _
          have first : EnsuresIf P (step i) s
              (fun r t => Inv phase' t ∧ Along step C rest t) A :=
            Ensures.mono_run (request phase i phase' s move along.1 inv) fun r t run h p =>
              ⟨h p, along.2 r t run⟩
          refine first.bind later fun r t ⟨inv', rest'⟩ => ?_
          exact (ih protocol rest' inv').bind (fun _ => Preserves.pure (fun _ => id) _)
            fun _ _ done => EnsuresIf.pure fun _ => done

/-- The same without such a condition. -/
theorem EnsuresIf.runAll {P : σ → Prop} (reflects : ∀ i, Reflects P (step i))
    (request : ∀ phase i phase' s, next phase i = some phase' → Inv phase s →
      EnsuresIf P (step i) s (fun _ t => Inv phase' t) A)
    {requests : List ι} {phase last : φ} {s : σ}
    (protocol : follow next phase requests = some last) (inv : Inv phase s) :
    EnsuresIf P (Program.runAll step requests) s (fun _ t => Inv last t) A :=
  EnsuresIf.runAll_along (C := fun _ _ => True) reflects
    (fun phase i phase' s move _ inv => request phase i phase' s move inv) protocol
    (Along.trivially requests s) inv

/-- A condition that an invariant gives holds along every run that keeps it. -/
theorem Along.of_invariant {good : ι → Prop} {C : σ → ι → Prop} {I : σ → Prop}
    (gives : ∀ s i, good i → I s → C s i)
    (keeps : ∀ s i r t, good i → I s → step i s = .ok r t → I t)
    {requests : List ι} (all : ∀ i ∈ requests, good i) {s : σ} (inv : I s) :
    Along step C requests s := by
  induction requests generalizing s with
  | nil => trivial
  | cons i rest ih =>
      have first : good i := all i List.mem_cons_self
      refine ⟨gives s i first inv, fun r t outcome => ?_⟩
      exact ih (fun j mem => all j (List.mem_cons_of_mem i mem)) (keeps s i r t first inv outcome)

/-- A condition on the requests alone. -/
theorem Along.of_all {good : ι → Prop} {requests : List ι} (all : ∀ i ∈ requests, good i) (s : σ) :
    Along step (fun _ i => good i) requests s :=
  Along.of_invariant (I := fun _ => True) (fun _ _ h _ => h) (fun _ _ _ _ _ _ _ => trivial) all
    trivial

/-- What every request preserves, a returning run preserves. -/
theorem runAll_preserves {I : σ → Prop} (keeps : ∀ s i r t, I s → step i s = .ok r t → I t)
    {requests : List ι} {s t : σ} {rs : List ρ} (run : runAll step requests s = .ok rs t)
    (inv : I s) : I t := by
  induction requests generalizing s rs with
  | nil =>
      cases run
      exact inv
  | cons i rest ih =>
      obtain ⟨r, u, tail, first, later, rfl⟩ := runAll_cons_ok.mp run
      exact ih later (keeps s i r u inv first)

/-- The requests that stop a run for a bad reason are exactly those made
against the condition. -/
theorem runAll_avoids_iff {good : σ → ι → Prop} {bad : ε → Prop}
    (safe : ∀ phase i phase' s, next phase i = some phase' → Inv phase s → good s i →
      Ensures (step i) s (fun _ t => Inv phase' t) (fun e _ => ¬ bad e))
    (fails : ∀ phase i phase' s, next phase i = some phase' → Inv phase s → ¬ good s i →
      ∃ e t, step i s = .error e t ∧ bad e)
    {requests : List ι} {phase last : φ} {s : σ}
    (protocol : follow next phase requests = some last) (inv : Inv phase s) :
    (∀ e t, runAll step requests s = .error e t → ¬ bad e) ↔ Along step good requests s := by
  induction requests generalizing phase s with
  | nil => simp [Along]
  | cons i rest ih =>
      unfold follow at protocol
      cases move : next phase i with
      | none => simp [move] at protocol
      | some phase' =>
          rw [move] at protocol
          by_cases ok : good s i
          · have first := safe phase i phase' s move inv ok
            constructor
            · intro avoids
              refine ⟨ok, fun r t outcome => (ih protocol (first.ok outcome)).mp fun e u stop => ?_⟩
              exact avoids e u (runAll_cons_error.mpr (.inr ⟨r, t, outcome, stop⟩))
            · rintro ⟨_, along⟩ e u stop
              obtain outcome | ⟨r, t, outcome, stop⟩ := runAll_cons_error.mp stop
              · exact first.error outcome
              · exact (ih protocol (first.ok outcome)).mpr (along r t outcome) e u stop
          · obtain ⟨e, t, outcome, isBad⟩ := fails phase i phase' s move inv ok
            constructor
            · intro avoids
              exact absurd isBad (avoids e t (runAll_cons_error.mpr (.inl outcome)))
            · intro along
              exact absurd along.1 ok

end Runs

end Program
