import ProfiLua.Program.Outcome
import ProfiLua.Program.Rearrange
import Mathlib.Algebra.Group.Nat.Defs

/-!
`table.sort` (`ltablib.c`): quicksort with the median of three, in place.

The table is its values at integer keys, which the code reads and writes raw. A
comparison returns or raises an error; it may remember what it was asked, but leaves
the table alone. `auxsort` calls itself for the smaller part and loops for the larger
one: `depth` bounds how deep the calls are nested and `rounds` how often each loops,
and running out of either is an outcome of its own. Keys are integers: on the machine
`l + u` has to fit an `int`.

* Whatever the comparison says, the values only change places, the one after the last
  included, and the calls are nested no deeper than the size allows (`sort_rearranges`).
* A comparison that is an order for the values is enough for the loops to end without
  an error, with these values sorted and no other one moved (`sort_sorts`).
-/

namespace ProfiLua

open Program (Rearranged swapAt Ensures update_update_eq_swapAt swapAt_left swapAt_right
  swapAt_other)

variable {α σ ε : Type}

/-- Why `auxsort` stopped. -/
inductive SortStop (ε : Type) where
  /-- "invalid order function for sorting" -/
  | invalidOrder
  /-- An error of the comparison. -/
  | raised (e : ε)
  /-- Calls were nested deeper than `depth`. -/
  | nested
  /-- A loop of the partition was not over after the rounds it was given. -/
  | unpartitioned
  /-- The loop of `auxsort` was not over after `rounds`. -/
  | endless
deriving DecidableEq

/-- The values of the table, and what the comparison remembers. -/
structure Sorting (α σ : Type) where
  values : ℤ → α
  memory : σ

namespace Sorting

def remember (s : Sorting α σ) (m : σ) : Sorting α σ := { s with memory := m }

def swap (s : Sorting α σ) (i j : ℤ) : Sorting α σ := { s with values := swapAt s.values i j }

@[simp] theorem swap_values (s : Sorting α σ) (i j : ℤ) :
    (s.swap i j).values = swapAt s.values i j := rfl

end Sorting

/-- What works on the table. -/
abbrev SortM (α σ ε : Type) := EStateM (SortStop ε) (Sorting α σ)

/-- The function at index 2, or `lua_lessthan`. -/
abbrev Comparison (α σ ε : Type) := α → α → σ → Except ε Bool × σ

/-- `lua_rawgeti` of the table. -/
def sortGet (i : ℤ) : SortM α σ ε α := do
  let s ← get
  return s.values i

/-- `set2`, with the value on top of the stack and the one below. -/
def set2 (i j : ℤ) (top below : α) : SortM α σ ε PUnit :=
  modify fun s =>
    { s with values := Function.update (Function.update s.values i top) j below }

section Quicksort

variable (comp : Comparison α σ ε)

/-- `sort_comp`. -/
def sortComp (x y : α) : SortM α σ ε Bool := do
  let s ← get
  modify fun s => s.remember (comp x y s.memory).2
  match (comp x y s.memory).1 with
  | .ok res => return res
  | .error e => throw (.raised e)

/-- `a[l]` and `a[u]` in order. -/
def sortEnds (l u : ℤ) : SortM α σ ε PUnit := do
  let x ← sortGet l
  let y ← sortGet u
  if ← sortComp comp y x then set2 l u y x

/-- `a[i]` between them. -/
def sortMiddle (l i u : ℤ) : SortM α σ ε PUnit := do
  let x ← sortGet i
  let y ← sortGet l
  if ← sortComp comp x y then set2 i l y x
  else
    let z ← sortGet u
    if ← sortComp comp z x then set2 i u z x

/-- Swap `a[i]` and `a[j]`, `i` read first. -/
def swapValues (i j : ℤ) : SortM α σ ε PUnit := do
  let x ← sortGet i
  let y ← sortGet j
  set2 i j y x

/-- Repeat `++i` until `a[i] >= P`. -/
def scanUp (P : α) (u : ℤ) : Nat → ℤ → SortM α σ ε (ℤ × α)
  | 0, _ => throw .unpartitioned
  | rounds + 1, i => do
      let x ← sortGet (i + 1)
      if ← sortComp comp x P then
        if u < i + 1 then throw .invalidOrder else scanUp P u rounds (i + 1)
      else return (i + 1, x)

/-- Repeat `--j` until `a[j] <= P`. -/
def scanDown (P : α) (l : ℤ) : Nat → ℤ → SortM α σ ε (ℤ × α)
  | 0, _ => throw .unpartitioned
  | rounds + 1, j => do
      let y ← sortGet (j - 1)
      if ← sortComp comp P y then
        if j - 1 < l then throw .invalidOrder else scanDown P l rounds (j - 1)
      else return (j - 1, y)

/-- The loop "invariant: a[l..i] <= P <= a[j..u]"; its last `i`. -/
def partitionLoop (P : α) (l u : ℤ) : Nat → ℤ → ℤ → SortM α σ ε ℤ
  | 0, _, _ => throw .unpartitioned
  | rounds + 1, i, j => do
      let (i, x) ← scanUp comp P u ((u - i).toNat + 2) i
      let (j, y) ← scanDown comp P l ((j - l).toNat + 2) j
      if j < i then return i
      else
        set2 i j y x
        partitionLoop P l u rounds i j

/-- One round of `auxsort`: none after a `break`, else the bounds of the smaller
part and of the larger one. -/
def sortRound (l u : ℤ) : SortM α σ ε (Option ((ℤ × ℤ) × ℤ × ℤ)) := do
  sortEnds comp l u
  if u - l = 1 then return none  -- only 2 elements
  else
    let i := (l + u) / 2
    sortMiddle comp l i u
    if u - l = 2 then return none  -- only 3 elements
    else
      let P ← sortGet i
      swapValues i (u - 1)
      let i ← partitionLoop comp P l u ((u - l).toNat + 1) l (u - 1)
      -- swap pivot (a[u-1]) with a[i]
      swapValues (u - 1) i
      if i - l < u - i then return some ((l, i - 1), i + 1, u)
      else return some ((i + 1, u), l, i - 1)

/-- The loop of `auxsort`, with the call for the smaller part. -/
def sortLoop (inner : ℤ → ℤ → SortM α σ ε PUnit) : Nat → ℤ → ℤ → SortM α σ ε PUnit
  | 0, _, _ => throw .endless
  | rounds + 1, l, u => do
      if l < u then
        match ← sortRound comp l u with
        | none => return ⟨⟩
        | some ((j, i), l, u) =>
            inner j i
            sortLoop inner rounds l u

/-- `auxsort`. -/
def auxsort (rounds : Nat) : Nat → ℤ → ℤ → SortM α σ ε PUnit
  | 0, _, _ => throw .nested
  | depth + 1, l, u => sortLoop comp (auxsort rounds depth) rounds l u

/-- `sort`, of a table of length `n`. -/
def sort (rounds depth n : Nat) : SortM α σ ε PUnit := auxsort comp rounds depth 1 n

end Quicksort

/-! ### Steps -/

section Steps

variable {β : Type} {comp : Comparison α σ ε} {s : Sorting α σ} {i j : ℤ} {x y : α}
  {Q : β → Sorting α σ → Prop} {A : SortStop ε → Sorting α σ → Prop}

theorem ensures_sortGet (f : α → SortM α σ ε β) :
    Ensures (sortGet i >>= f) s Q A ↔ Ensures (f (s.values i)) s Q A := by
  rw [Program.ensures_bind, sortGet, Program.ensures_bind, Program.ensures_get,
    Program.ensures_pure]

/-- A comparison leaves the table alone: it returns, or the error it raises goes on.
Its own memory may change. -/
theorem ensures_sortComp (f : Bool → SortM α σ ε β)
    (returned : ∀ res m, comp x y s.memory = (.ok res, m) → Ensures (f res) (s.remember m) Q A)
    (error : ∀ e m, comp x y s.memory = (.error e, m) → A (.raised e) (s.remember m)) :
    Ensures (sortComp comp x y >>= f) s Q A := by
  rw [Program.ensures_bind, sortComp, Program.ensures_bind, Program.ensures_get,
    Program.ensures_bind, Program.ensures_modify]
  rcases said : comp x y s.memory with ⟨answer, m⟩
  cases answer with
  | ok res => exact Ensures.pure (returned res m said)
  | error e => exact Ensures.throw (error e m said)

/-- `set2` of two values that were read exchanges them. -/
theorem ensures_set2 {Q : PUnit → Sorting α σ → Prop} (i j : ℤ) :
    Ensures (set2 i j (s.values j) (s.values i)) s Q A ↔ Q ⟨⟩ (s.swap i j) := by
  rw [set2, Program.ensures_modify, update_update_eq_swapAt]
  exact Iff.rfl

/-- The two `lua_rawseti` of a swap. -/
theorem ensures_swapValues {Q : PUnit → Sorting α σ → Prop} (i j : ℤ) :
    Ensures (swapValues i j) s Q A ↔ Q ⟨⟩ (s.swap i j) := by
  rw [swapValues, ensures_sortGet, ensures_sortGet, ensures_set2]

end Steps

/-! ### Any comparison -/

section Any

/-- The stops the code knows. -/
def SortStop.FromCode (e : SortStop ε) : Prop := e = .invalidOrder ∨ ∃ raised, e = .raised raised

variable {comp : Comparison α σ ε} {a : ℤ → α} {P : α} {low high i j l u : ℤ}

/-- The program leaves the values between `low` and `high` those of `a` in another
order, whether it returns or stops. -/
def Rearranges {β : Type} (a : ℤ → α) (low high : ℤ) (stops : SortStop ε → Prop)
    (x : SortM α σ ε β) (Q : β → Prop) : Prop :=
  ∀ s, Rearranged low high a s.values →
    Ensures x s (fun b t => Q b ∧ Rearranged low high a t.values)
      fun e t => stops e ∧ Rearranged low high a t.values

/-- One part after the other only rearranges if both do. -/
theorem rearranges_bind {β γ : Type} {x : SortM α σ ε β} {f : β → SortM α σ ε γ} {Q : β → Prop}
    {R : γ → Prop} {stops : SortStop ε → Prop} (first : Rearranges a low high stops x Q)
    (second : ∀ b, Q b → Rearranges a low high stops (f b) R) :
    Rearranges a low high stops (x >>= f) R := by
  intro s kept
  apply (first s kept).bind
  rintro b t ⟨known, kept'⟩
  exact second b known t kept'

theorem rearranges_pure {β : Type} {b : β} {Q : β → Prop} {stops : SortStop ε → Prop}
    (known : Q b) : Rearranges a low high stops (pure b : SortM α σ ε β) Q := by
  intro s kept
  apply Ensures.pure
  exact ⟨known, kept⟩

theorem rearranges_throw {β : Type} {Q : β → Prop} {stops : SortStop ε → Prop} {e : SortStop ε}
    (known : stops e) : Rearranges a low high stops (throw e : SortM α σ ε β) Q := by
  intro s kept
  apply Ensures.throw
  exact ⟨known, kept⟩

theorem Rearranges.stop {β : Type} {x : SortM α σ ε β} {Q : β → Prop}
    {stops more : SortStop ε → Prop} (known : Rearranges a low high stops x Q)
    (weaker : ∀ e, stops e → more e) : Rearranges a low high more x Q := by
  intro s kept
  apply (known s kept).mono
  · intro b t post
    exact post
  · rintro e t ⟨stopped, kept'⟩
    exact ⟨weaker e stopped, kept'⟩

theorem rearranges_sortGet {stops : SortStop ε → Prop} (i : ℤ) :
    Rearranges a low high stops (sortGet i : SortM α σ ε α) fun _ => True := by
  intro s kept
  rw [sortGet, Program.ensures_bind, Program.ensures_get, Program.ensures_pure]
  exact ⟨trivial, kept⟩

/-- A swap inside the bounds rearranges what is between them. -/
theorem rearranges_swapValues {stops : SortStop ε → Prop} (hi : low ≤ i ∧ i ≤ high)
    (hj : low ≤ j ∧ j ≤ high) :
    Rearranges a low high stops (swapValues i j : SortM α σ ε PUnit) fun _ => True := by
  intro s kept
  rw [ensures_swapValues]
  exact ⟨trivial, kept.trans (.swapAt s.values hi hj)⟩

/-- The ends are put in order, if the comparison says so. -/
theorem rearranges_sortEnds (hl : low ≤ l ∧ l ≤ high) (hu : low ≤ u ∧ u ≤ high) :
    Rearranges a low high SortStop.FromCode (sortEnds comp l u) fun _ => True := by
  intro s kept
  rw [sortEnds, ensures_sortGet, ensures_sortGet]
  apply ensures_sortComp
  · intro res m _
    apply Ensures.ite
    · intro _
      exact (ensures_set2 (s := s.remember m) l u).mpr ⟨trivial, kept.trans (.swapAt _ hl hu)⟩
    · intro _
      exact Ensures.pure ⟨trivial, kept⟩
  · intro e m _
    exact ⟨.inr ⟨e, rfl⟩, kept⟩

/-- And then the element in the middle. It changes places with one of the ends,
or with none, so the values of the part stay the same whatever the comparison
said. -/
theorem rearranges_sortMiddle (hl : low ≤ l ∧ l ≤ high) (hi : low ≤ i ∧ i ≤ high)
    (hu : low ≤ u ∧ u ≤ high) :
    Rearranges a low high SortStop.FromCode (sortMiddle comp l i u) fun _ => True := by
  intro s kept
  rw [sortMiddle, ensures_sortGet, ensures_sortGet]
  apply ensures_sortComp
  · intro res m _
    apply Ensures.ite
    · intro _
      exact (ensures_set2 (s := s.remember m) i l).mpr ⟨trivial, kept.trans (.swapAt _ hi hl)⟩
    · intro _
      rw [ensures_sortGet]
      apply ensures_sortComp
      · intro res' m' _
        apply Ensures.ite
        · intro _
          exact (ensures_set2 (s := (s.remember m).remember m') i u).mpr
            ⟨trivial, kept.trans (.swapAt _ hi hu)⟩
        · intro _
          exact Ensures.pure ⟨trivial, kept⟩
      · intro e m' _
        exact ⟨.inr ⟨e, rfl⟩, kept⟩
  · intro e m _
    exact ⟨.inr ⟨e, rfl⟩, kept⟩

/-- The scans change nothing, and come one place past the ends at most: the
source tests `i > u` after the comparison, so the place `u + 1` is read before
the error is raised. By induction on the rounds. -/
theorem ensures_scanUp {s : Sorting α σ} {rounds : Nat} (inside : i ≤ u)
    (enough : u - i + 1 < rounds) :
    Ensures (scanUp comp P u rounds i) s
      (fun r t => t.values = s.values ∧ r.2 = s.values r.1 ∧ i < r.1 ∧ r.1 ≤ u + 1)
      fun e t => e.FromCode ∧ t.values = s.values := by
  induction rounds generalizing s i with
  | zero => omega
  | succ rounds ih =>
      rw [scanUp, ensures_sortGet]
      apply ensures_sortComp
      · intro res m _
        apply Ensures.ite
        · intro _
          apply Ensures.ite
          · intro _
            -- past the end: the comparison cannot be an order
            exact Ensures.throw ⟨.inl rfl, rfl⟩
          · intro below
            apply (ih (s := s.remember m) (by omega) (by omega)).mono
            · rintro r t ⟨same, value, more, bound⟩
              exact ⟨same, value, by omega, bound⟩
            · intro e t post
              exact post
        · intro _
          apply Ensures.pure
          refine ⟨rfl, rfl, ?_, ?_⟩
          · dsimp only
            omega
          · dsimp only
            omega
      · intro e m _
        exact ⟨.inr ⟨e, rfl⟩, rfl⟩

/-- The scan from above changes nothing either, and goes down by one place at
least. Below the lower end it stops, or raises `invalid order function`. -/
theorem ensures_scanDown {s : Sorting α σ} {rounds : Nat} (inside : l ≤ j)
    (enough : j - l + 1 < rounds) :
    Ensures (scanDown comp P l rounds j) s
      (fun r t => t.values = s.values ∧ r.2 = s.values r.1 ∧ r.1 < j)
      fun e t => e.FromCode ∧ t.values = s.values := by
  induction rounds generalizing s j with
  | zero => omega
  | succ rounds ih =>
      rw [scanDown, ensures_sortGet]
      apply ensures_sortComp
      · intro res m _
        apply Ensures.ite
        · intro _
          apply Ensures.ite
          · intro _
            exact Ensures.throw ⟨.inl rfl, rfl⟩
          · intro above
            apply (ih (s := s.remember m) (by omega) (by omega)).mono
            · rintro r t ⟨same, value, less⟩
              exact ⟨same, value, by omega⟩
            · intro e t post
              exact post
        · intro _
          apply Ensures.pure
          refine ⟨rfl, rfl, ?_⟩
          dsimp only
          omega
      · intro e m _
        exact ⟨.inr ⟨e, rfl⟩, rfl⟩

/-- However the comparison answers, the loop ends with its two indices inside
the part, one past the other. They move towards each other in every round, so
their distance bounds the rounds. -/
theorem rearranges_partitionLoop {rounds : Nat} (hl : low ≤ l) (hu : u + 1 ≤ high)
    (hi : l ≤ i ∧ i ≤ u) (hj : l ≤ j ∧ j < u) (enough : j - i < rounds) (some : 0 < rounds) :
    Rearranges a low high SortStop.FromCode (partitionLoop comp P l u rounds i j)
      fun i' => l < i' ∧ i' ≤ u + 1 := by
  induction rounds generalizing i j with
  | zero => omega
  | succ rounds ih =>
      intro s kept
      rw [partitionLoop]
      apply Ensures.bind ((ensures_scanUp hi.2 (by omega)).mono (fun _ _ post => post) ?_)
      · rintro ⟨i', x⟩ t ⟨same, value, more, bound⟩
        apply Ensures.bind ((ensures_scanDown hj.1 (by omega)).mono (fun _ _ post => post) ?_)
        · rintro ⟨j', y⟩ t' ⟨same', value', less⟩
          dsimp only at more bound less value value' ⊢
          -- neither scan wrote anything, so both values are still where they were read
          rw [← same, ← same'] at value
          rw [← same'] at value'
          rw [← same, ← same'] at kept
          subst value value'
          apply Ensures.ite
          · intro _
            exact Ensures.pure ⟨⟨by omega, bound⟩, kept⟩
          · intro uncrossed
            rw [Program.ensures_bind, ensures_set2]
            apply ih (by omega) (by omega) (by omega) (by omega)
            exact kept.trans (.swapAt t'.values (by omega) (by omega))
        · rintro e t' ⟨stopped, same'⟩
          rw [same', same]
          exact ⟨stopped, kept⟩
      · rintro e t ⟨stopped, same⟩
        rw [same]
        exact ⟨stopped, kept⟩

/-- What a round leaves to sort, whatever the comparison says: two parts inside,
and the one for the call at most half of what was there. Which of the two is
smaller is tested last. -/
theorem rearranges_sortRound (hl : low ≤ l) (hu : u + 1 ≤ high) (more : l < u) :
    Rearranges a low high SortStop.FromCode (sortRound comp l u) fun parts =>
      ∀ p q l' u', parts = some ((p, q), l', u') →
        3 ≤ u - l ∧ l ≤ p ∧ q ≤ u ∧ 2 * (q - p + 1) ≤ u - l ∧ l ≤ l' ∧ u' ≤ u := by
  rw [sortRound]
  apply rearranges_bind (rearranges_sortEnds (by omega) (by omega))
  intro _ _
  by_cases two : u - l = 1
  · rw [if_pos two]
    apply rearranges_pure
    rintro p q l' u' ⟨⟩
  · rw [if_neg two]
    apply rearranges_bind (rearranges_sortMiddle (by omega) (by omega) (by omega))
    intro _ _
    by_cases three : u - l = 2
    · rw [if_pos three]
      apply rearranges_pure
      rintro p q l' u' ⟨⟩
    · rw [if_neg three]
      apply rearranges_bind (rearranges_sortGet _)
      intro P _
      apply rearranges_bind (rearranges_swapValues (by omega) (by omega))
      intro _ _
      apply rearranges_bind
        (rearranges_partitionLoop hl hu (by omega) (by omega) (by omega) (by omega))
      rintro i ⟨after, before⟩
      apply rearranges_bind (rearranges_swapValues (by omega) (by omega))
      intro _ _
      by_cases smaller : i - l < u - i
      · rw [if_pos smaller]
        apply rearranges_pure
        rintro p q l' u' ⟨⟩
        omega
      · rw [if_neg smaller]
        apply rearranges_pure
        rintro p q l' u' ⟨⟩
        omega

/-- Only the loop of `auxsort` may be endless. -/
def SortStop.Possible (e : SortStop ε) : Prop := e.FromCode ∨ e = .endless

/-- The loop over the larger halves: every round sorts the smaller one and goes
on with a shorter part. Running out of rounds is the one stop that the code
itself does not make. -/
theorem rearranges_sortLoop {inner : ℤ → ℤ → SortM α σ ε PUnit} {rounds : Nat} (size : ℤ)
    (calls : ∀ p q, 3 ≤ size → low ≤ p → q + 1 ≤ high → 2 * (q - p + 1) ≤ size →
      Rearranges a low high SortStop.Possible (inner p q) fun _ => True)
    (hl : low ≤ l) (hu : u + 1 ≤ high) (fits : u - l ≤ size) :
    Rearranges a low high SortStop.Possible (sortLoop comp inner rounds l u) fun _ => True := by
  induction rounds generalizing l u with
  | zero => exact rearranges_throw (.inr rfl)
  | succ rounds ih =>
      rw [sortLoop]
      by_cases more : l < u
      · rw [if_pos more]
        apply rearranges_bind ((rearranges_sortRound hl hu more).stop fun e known => .inl known)
        intro parts bounds
        rcases parts with _ | ⟨⟨p, q⟩, l', u'⟩
        · exact rearranges_pure trivial
        · obtain ⟨long, hp, hq, half, hl', hu'⟩ := bounds p q l' u' rfl
          apply rearranges_bind (calls p q (by omega) (by omega) (by omega) (by omega))
          intro _ _
          exact ih (by omega) (by omega) (by omega)
      · rw [if_neg more]
        exact rearranges_pure trivial

/-- The recursion is into the smaller half, so its depth is bounded by the logarithm
of the size. -/
theorem rearranges_auxsort {rounds depth : Nat} (hl : low ≤ l) (hu : u + 1 ≤ high)
    (some : 0 < depth) (deep : (u - l + 1).toNat < 2 ^ depth) :
    Rearranges a low high SortStop.Possible (auxsort comp rounds depth l u) fun _ => True := by
  induction depth generalizing l u with
  | zero => omega
  | succ depth ih =>
      rw [auxsort]
      apply rearranges_sortLoop (u - l) _ hl hu le_rfl
      intro p q long hp hq half
      rw [Nat.pow_succ] at deep
      have nested : depth ≠ 0 := by
        rintro rfl
        rw [Nat.pow_zero] at deep
        omega
      exact ih hp hq (by omega) (by omega)

end Any

/-- `table.sort` with any comparison, consistent or not, that may remember what it was
asked and raise errors: it leaves the values at `1` to `n + 1` in another order and
touches nothing else, its partitions come to an end, and its calls are nested no deeper
than the logarithm of the length. -/
theorem sort_rearranges (comp : Comparison α σ ε) (rounds depth n : Nat) (s : Sorting α σ)
    (some : 0 < depth) (deep : n < 2 ^ depth) :
    Ensures (sort comp rounds depth n) s
      (fun _ t => Rearranged 1 (n + 1) s.values t.values)
      fun e t => e.Possible ∧ Rearranged 1 (n + 1) s.values t.values := by
  have sorted : Rearranges s.values 1 (n + 1) SortStop.Possible
      (auxsort comp rounds depth 1 n) fun _ => True :=
    rearranges_auxsort le_rfl le_rfl some (by omega)
  apply (sorted s (.refl _ _ _)).mono
  · rintro _ t ⟨-, kept⟩
    exact kept
  · intro e t post
    exact post

/-- Says "below" for the fourth to the sixth question, whatever is asked. -/
def erratic : Comparison ℤ Nat Empty :=
  fun _ _ asked => (.ok (decide (3 ≤ asked ∧ asked ≤ 5)), asked + 1)

theorem sort_rearranges_erratic :
    (0 < 3 ∧ 4 < 2 ^ 3) ∧
      Ensures (sort erratic 4 3 4) ⟨id, 0⟩ (fun _ t => Rearranged 1 (4 + 1) id t.values)
        fun e t => e.Possible ∧ Rearranged 1 (4 + 1) id t.values :=
  ⟨⟨by decide, by decide⟩, sort_rearranges erratic 4 3 4 ⟨id, 0⟩ (by decide) (by decide)⟩

/-- The scan runs past the last of the four values, and the fifth one comes in. -/
example : Ensures (sort erratic 4 3 4) ⟨id, 0⟩
    (fun _ t => t.values 2 = 5 ∧ t.values 5 = 2) fun _ _ => False := by decide +kernel

/-! ### An order -/

section Order

/-- No value is below an earlier one. -/
def SortedFrom (lt : α → α → Bool) (l u : ℤ) (a : ℤ → α) : Prop :=
  ∀ p q, l ≤ p → p < q → q ≤ u → lt (a q) (a p) = false

/-- The comparison answers `lt` for the values in `D`, which orders them. -/
structure Orders (comp : Comparison α σ ε) (D : α → Prop) (lt : α → α → Bool) : Prop where
  answers : ∀ {x y}, D x → D y → ∀ m, (comp x y m).1 = .ok (lt x y)
  asymm : ∀ {x y}, D x → D y → lt x y = true → lt y x = false
  trans : ∀ {x y z}, D x → D y → D z → lt y x = false → lt z y = false → lt z x = false

variable {comp : Comparison α σ ε} {D : α → Prop} {lt : α → α → Bool} {P : α} {l i j m u : ℤ}

theorem Orders.irrefl (orders : Orders comp D lt) {x : α} (hx : D x) : lt x x = false := by
  cases same : lt x x with
  | false => rfl
  | true => exact same.symm.trans (orders.asymm hx hx same)

/-- With an order, a comparison returns what the order says: it raises no error,
and what it remembers has no part in the answer. -/
theorem Orders.ensures_sortComp {β : Type} {s : Sorting α σ} {x y : α}
    {f : Bool → SortM α σ ε β} {Q : β → Sorting α σ → Prop}
    {A : SortStop ε → Sorting α σ → Prop} (orders : Orders comp D lt) (hx : D x) (hy : D y)
    (next : ∀ m, Ensures (f (lt x y)) (s.remember m) Q A) :
    Ensures (sortComp comp x y >>= f) s Q A := by
  have answer := orders.answers hx hy s.memory
  apply ProfiLua.ensures_sortComp
  · intro res m said
    rw [said, Except.ok.injEq] at answer
    rw [answer]
    exact next m
  · intro e m said
    rw [said] at answer
    cases answer

/-- Two elements in order. -/
theorem Orders.sortEnds (orders : Orders comp D lt) {s : Sorting α σ} (more : l < u)
    (hl : D (s.values l)) (hu : D (s.values u)) :
    Ensures (sortEnds comp l u) s
      (fun _ t => Rearranged l u s.values t.values ∧ lt (t.values u) (t.values l) = false)
      fun _ _ => False := by
  rw [ProfiLua.sortEnds, ensures_sortGet, ensures_sortGet]
  apply orders.ensures_sortComp hu hl
  intro m
  apply Ensures.ite
  · intro below
    refine (ensures_set2 (s := s.remember m) l u).mpr ⟨.swapAt _ (by omega) (by omega), ?_⟩
    rw [Sorting.swap_values, swapAt_right, swapAt_left]
    exact orders.asymm hu hl below
  · intro above
    apply Ensures.pure
    exact ⟨.refl _ _ _, Bool.of_not_eq_true above⟩

/-- Three elements in order: the median of three. The ends are in order already;
the middle one goes to its place among them. -/
theorem Orders.sortMiddle (orders : Orders comp D lt) {s : Sorting α σ} (hi : l < i ∧ i < u)
    (each : ∀ k, l ≤ k → k ≤ u → D (s.values k))
    (ends : lt (s.values u) (s.values l) = false) :
    Ensures (sortMiddle comp l i u) s
      (fun _ t => Rearranged l u s.values t.values ∧
        lt (t.values i) (t.values l) = false ∧ lt (t.values u) (t.values i) = false)
      fun _ _ => False := by
  have first := each l (by omega) (by omega)
  have middle := each i (by omega) (by omega)
  have last := each u (by omega) (by omega)
  rw [ProfiLua.sortMiddle, ensures_sortGet, ensures_sortGet]
  apply orders.ensures_sortComp middle first
  intro m
  apply Ensures.ite
  · intro below
    refine (ensures_set2 (s := s.remember m) i l).mpr ⟨.swapAt _ (by omega) (by omega), ?_⟩
    rw [Sorting.swap_values, swapAt_right, swapAt_left, swapAt_other _ (by omega) (by omega)]
    exact ⟨orders.asymm middle first below, ends⟩
  · intro above
    rw [ensures_sortGet]
    apply orders.ensures_sortComp last middle
    intro m'
    apply Ensures.ite
    · intro below
      refine (ensures_set2 (s := (s.remember m).remember m') i u).mpr
        ⟨.swapAt _ (by omega) (by omega), ?_⟩
      rw [Sorting.swap_values, swapAt_right, swapAt_left,
        swapAt_other _ (by omega) (by omega)]
      exact ⟨ends, orders.asymm last middle below⟩
    · intro above'
      apply Ensures.pure
      exact ⟨.refl _ _ _, Bool.of_not_eq_true above, Bool.of_not_eq_true above'⟩

/-- Up to a value that is not below `P`, the scan stays inside, and raises no
error. It stops at the first such value; everything it passed is below the
pivot. -/
theorem Orders.scanUp (orders : Orders comp D lt) {s : Sorting α σ} {rounds : Nat} {k : ℤ}
    (hP : D P) (each : ∀ m, i < m → m ≤ k → D (s.values m)) (hk : i < k ∧ k ≤ u)
    (stop : lt (s.values k) P = false) (enough : k - i ≤ rounds) :
    Ensures (scanUp comp P u rounds i) s
      (fun r t => t.values = s.values ∧ r.2 = s.values r.1 ∧ (i < r.1 ∧ r.1 ≤ k) ∧
        lt (s.values r.1) P = false ∧ ∀ m, i < m → m < r.1 → lt (s.values m) P = true)
      fun _ _ => False := by
  induction rounds generalizing s i with
  | zero => omega
  | succ rounds ih =>
      rw [ProfiLua.scanUp, ensures_sortGet]
      apply orders.ensures_sortComp (each (i + 1) (by omega) (by omega)) hP
      intro m
      apply Ensures.ite
      · intro below
        rw [if_neg (by omega)]
        have other : k ≠ i + 1 := by
          rintro rfl
          rw [stop] at below
          cases below
        apply (ih (s := s.remember m) _ (by omega) stop (by omega)).mono
        · rintro r t ⟨same, value, bounds, stopped, passed⟩
          refine ⟨same, value, by omega, stopped, ?_⟩
          intro p after before
          by_cases next : p = i + 1
          · rw [next]
            exact below
          · exact passed p (by omega) before
        · intro _ _ none
          exact none
        · intro p after before
          exact each p (by omega) before
      · intro above
        apply Ensures.pure
        refine ⟨rfl, rfl, by dsimp only; omega, Bool.of_not_eq_true above, ?_⟩
        intro p after before
        dsimp only at before
        omega

/-- The scan from above stops at the first element that is not greater than the
pivot. There is one, as long as one was left below; everything passed on the way
is greater. -/
theorem Orders.scanDown (orders : Orders comp D lt) {s : Sorting α σ} {rounds : Nat} {k : ℤ}
    (hP : D P) (each : ∀ m, k ≤ m → m < j → D (s.values m)) (hk : l ≤ k ∧ k < j)
    (stop : lt P (s.values k) = false) (enough : j - k ≤ rounds) :
    Ensures (scanDown comp P l rounds j) s
      (fun r t => t.values = s.values ∧ r.2 = s.values r.1 ∧ (k ≤ r.1 ∧ r.1 < j) ∧
        lt P (s.values r.1) = false ∧ ∀ m, r.1 < m → m < j → lt P (s.values m) = true)
      fun _ _ => False := by
  induction rounds generalizing s j with
  | zero => omega
  | succ rounds ih =>
      rw [ProfiLua.scanDown, ensures_sortGet]
      apply orders.ensures_sortComp hP (each (j - 1) (by omega) (by omega))
      intro m
      apply Ensures.ite
      · intro above
        rw [if_neg (by omega)]
        have other : k ≠ j - 1 := by
          rintro rfl
          rw [stop] at above
          cases above
        apply (ih (s := s.remember m) _ (by omega) stop (by omega)).mono
        · rintro r t ⟨same, value, bounds, stopped, passed⟩
          refine ⟨same, value, by omega, stopped, ?_⟩
          intro p after before
          by_cases next : p = j - 1
          · rw [next]
            exact above
          · exact passed p after (by omega)
        · intro _ _ none
          exact none
        · intro p after before
          exact each p after (by omega)
      · intro below
        apply Ensures.pure
        refine ⟨rfl, rfl, by dsimp only; omega, Bool.of_not_eq_true below, ?_⟩
        intro p after before
        dsimp only at after
        omega

/-- "invariant: a[l..i] <= P <= a[j..u]", with the pivot at `u - 1`. -/
structure Partitioned (lt : α → α → Bool) (P : α) (l i j u : ℤ) (a : ℤ → α) : Prop where
  pivot : a (u - 1) = P
  low : ∀ k, l ≤ k → k ≤ i → lt P (a k) = false
  high : ∀ k, j ≤ k → k ≤ u → lt (a k) P = false

/-- Where the scans have stopped, apart: the two values change places, and each
is then on its side of the pivot. The invariant holds with the indices moved to
where they stopped. -/
theorem Partitioned.exchanged {a : ℤ → α} {i' j' : ℤ} (parts : Partitioned lt P l i j u a)
    (bounds : l ≤ i ∧ i < i' ∧ i' ≤ j' ∧ j' < j ∧ j < u)
    (low : lt P (a j') = false) (high : lt (a i') P = false)
    (passed : ∀ k, i < k → k < i' → lt P (a k) = false)
    (passed' : ∀ k, j' < k → k < j → lt (a k) P = false) :
    Partitioned lt P l i' j' u (swapAt a i' j') := by
  constructor
  · rw [swapAt_other _ (by omega) (by omega)]
    exact parts.pivot
  · intro k after before
    by_cases last : k = i'
    · rw [last, swapAt_left]
      exact low
    · rw [swapAt_other _ last (by omega)]
      by_cases new : i < k
      · exact passed k new (by omega)
      · exact parts.low k after (by omega)
  · intro k after before
    by_cases first : k = j'
    · rw [first, swapAt_right]
      exact high
    · rw [swapAt_other _ (by omega) first]
      by_cases new : k < j
      · exact passed' k (by omega) new
      · exact parts.high k (by omega) before

/-- Where the scans have stopped, past each other: the two parts meet, and every
value is on one of the sides. -/
theorem Partitioned.crossed {a : ℤ → α} {i' j' : ℤ} (parts : Partitioned lt P l i j u a)
    (crossed : j' < i') (high : lt (a i') P = false)
    (passed : ∀ k, i < k → k < i' → lt P (a k) = false)
    (passed' : ∀ k, j' < k → k < j → lt (a k) P = false) :
    Partitioned lt P l (i' - 1) i' u a := by
  constructor
  · exact parts.pivot
  · intro k after before
    by_cases new : i < k
    · exact passed k new (by omega)
    · exact parts.low k after (by omega)
  · intro k after before
    by_cases first : k = i'
    · rw [first]
      exact high
    · by_cases new : k < j
      · exact passed' k (by omega) new
      · exact parts.high k (by omega) before

/-- The pivot moved to `u - 1`, the end of the right part. The invariant holds
with the two ends, which the median of three has put in order. -/
theorem Partitioned.start {a : ℤ → α} (orders : Orders comp D lt) (hi : l < i ∧ i < u - 1)
    (pivot : D (a i)) (low : lt (a i) (a l) = false) (high : lt (a u) (a i) = false) :
    Partitioned lt (a i) l l (u - 1) u (swapAt a i (u - 1)) := by
  constructor
  · exact swapAt_right _ _ _
  · intro k after before
    have first : k = l := by omega
    rw [first, swapAt_other _ (by omega) (by omega)]
    exact low
  · intro k after before
    by_cases last : k = u
    · rw [last, swapAt_other _ (by omega) (by omega)]
      exact high
    · have place : k = u - 1 := by omega
      rw [place, swapAt_right]
      exact orders.irrefl pivot

/-- What is left of `i` is not greater than the pivot and what is right of `j`
not less, until they meet. Both scans are stopped by a value of the invariant:
the pivot itself from below, the lower end from above. -/
theorem Orders.partitionLoop (orders : Orders comp D lt) {s : Sorting α σ} {rounds : Nat}
    (parts : Partitioned lt P l i j u s.values)
    (each : ∀ k, l ≤ k → k ≤ u → D (s.values k))
    (bounds : l ≤ i ∧ i ≤ j ∧ l < j ∧ j < u ∧ i + 1 < u) (enough : j - i < rounds) :
    Ensures (partitionLoop comp P l u rounds i j) s
      (fun i' t => Rearranged l u s.values t.values ∧ (l < i' ∧ i' < u) ∧
        Partitioned lt P l (i' - 1) i' u t.values)
      fun _ _ => False := by
  have hP : D P := by
    rw [← parts.pivot]
    exact each _ (by omega) (by omega)
  induction rounds generalizing s i j with
  | zero => omega
  | succ rounds ih =>
      rw [ProfiLua.partitionLoop]
      refine Ensures.bind (orders.scanUp (k := u - 1) hP
        (fun k _ _ => each k (by omega) (by omega)) (by omega)
        (parts.high _ (by omega) (by omega)) (by omega)) ?_
      rintro ⟨i', x⟩ t ⟨same, value, within, stopped, passed⟩
      have first : lt P (t.values l) = false := by
        rw [same]
        exact parts.low l le_rfl (by omega)
      refine Ensures.bind (orders.scanDown (k := l) hP
        (fun k _ _ => by rw [same]; exact each k (by omega) (by omega)) (by omega) first
        (by omega)) ?_
      rintro ⟨j', y⟩ t' ⟨same', value', within', stopped', passed'⟩
      clear first
      dsimp only at value within stopped passed value' within' stopped' passed' ⊢
      rw [same] at same' value' stopped' passed'
      rw [← same'] at value value' stopped stopped' passed passed' parts each ⊢
      subst value value'
      have left : ∀ k, i < k → k < i' → lt P (t'.values k) = false := by
        intro k after before
        exact orders.asymm (each k (by omega) (by omega)) hP (passed k after before)
      have right : ∀ k, j' < k → k < j → lt (t'.values k) P = false := by
        intro k after before
        exact orders.asymm hP (each k (by omega) (by omega)) (passed' k after before)
      apply Ensures.ite
      · intro crossed
        apply Ensures.pure
        exact ⟨.refl _ _ _, by omega, parts.crossed crossed stopped left right⟩
      · intro apart
        rw [Program.ensures_bind, ensures_set2]
        have moved : Rearranged l u t'.values (t'.swap i' j').values :=
          .swapAt _ (by omega) (by omega)
        apply (ih (parts.exchanged (by omega) stopped' stopped left right) _ (by omega)
          (by omega)).mono
        · rintro r t'' ⟨more, post⟩
          exact ⟨moved.trans more, post⟩
        · intro _ _ none
          exact none
        · exact moved.all each

/-- Nothing before `m` is above the value there, and nothing after it below. -/
structure Split (lt : α → α → Bool) (l m u : ℤ) (a : ℤ → α) : Prop where
  left : ∀ k, l ≤ k → k < m → lt (a m) (a k) = false
  right : ∀ k, m < k → k ≤ u → lt (a k) (a m) = false

/-- The values on one side of `m` in another order: the side as a whole still
holds the same values, so none of them crosses the value at `m`. -/
theorem Split.rearranged {a b : ℤ → α} {p q : ℤ} (split : Split lt l m u a)
    (side : (l ≤ p ∧ q < m) ∨ (m < p ∧ q ≤ u)) (some : Rearranged p q a b) :
    Split lt l m u b := by
  have pivot : b m = a m := some.outside (by omega)
  constructor
  · rw [pivot]
    intro k after before
    by_cases inside : p ≤ k ∧ k ≤ q
    · obtain ⟨k', low, high, same⟩ := some.inside inside.1 inside.2
      rw [same]
      exact split.left k' (by omega) (by omega)
    · rw [some.outside (by omega)]
      exact split.left k after before
  · rw [pivot]
    intro k after before
    by_cases inside : p ≤ k ∧ k ≤ q
    · obtain ⟨k', low, high, same⟩ := some.inside inside.1 inside.2
      rw [same]
      exact split.right k' (by omega) (by omega)
    · rw [some.outside (by omega)]
      exact split.right k after before

/-- Two sorted halves around an element that splits them make a sorted whole:
across the middle the order goes through the element there. -/
theorem Split.sortedFrom {a : ℤ → α} (split : Split lt l m u a) (orders : Orders comp D lt)
    (each : ∀ k, l ≤ k → k ≤ u → D (a k)) (hm : l ≤ m ∧ m ≤ u) (left : SortedFrom lt l (m - 1) a)
    (right : SortedFrom lt (m + 1) u a) : SortedFrom lt l u a := by
  intro p q first less last
  rcases lt_trichotomy q m with before | rfl | after
  · exact left p q first less (by omega)
  · exact split.left p first less
  · rcases lt_trichotomy p m with before' | rfl | after'
    · exact orders.trans (each p first (by omega)) (each m hm.1 hm.2) (each q (by omega) last)
        (split.left p first before') (split.right q after last)
    · exact split.right q less last
    · exact right p q (by omega) less last

/-- The pivot put between the two parts: it changes places with the first value
that is not less, which belongs to the right part anyway. -/
theorem Partitioned.split {a : ℤ → α} (parts : Partitioned lt P l (m - 1) m u a)
    (within : l < m ∧ m < u) : Split lt l m u (swapAt a (u - 1) m) := by
  have place : swapAt a (u - 1) m m = P := by
    rw [swapAt_right, parts.pivot]
  constructor
  · intro k after before
    rw [place, swapAt_other _ (by omega) (by omega)]
    exact parts.low k after (by omega)
  · intro k after before
    rw [place]
    by_cases last : k = u - 1
    · rw [last, swapAt_left]
      exact parts.high m le_rfl (by omega)
    · rw [swapAt_other _ last (by omega)]
      exact parts.high k (by omega) before

/-- A part of at most one element is sorted. -/
theorem sortedFrom_short {a : ℤ → α} (short : u ≤ l) : SortedFrom lt l u a := by
  intro p q first less last
  omega

theorem sortedFrom_two {a : ℤ → α} (two : u = l + 1) (ends : lt (a u) (a l) = false) :
    SortedFrom lt l u a := by
  intro p q first less last
  obtain rfl : p = l := by omega
  obtain rfl : q = u := by omega
  exact ends

theorem sortedFrom_three {a : ℤ → α} (orders : Orders comp D lt)
    (each : ∀ k, l ≤ k → k ≤ u → D (a k)) (hm : m = l + 1) (three : u = l + 2)
    (low : lt (a m) (a l) = false) (high : lt (a u) (a m) = false) : SortedFrom lt l u a := by
  have split : Split lt l m u a := by
    constructor
    · intro k after before
      obtain rfl : k = l := by omega
      exact low
    · intro k after before
      obtain rfl : k = u := by omega
      exact high
  exact split.sortedFrom orders each (by omega) (sortedFrom_short (by omega))
    (sortedFrom_short (by omega))

/-- The two parts that a round leaves, `m` the place of the pivot. -/
def Halves (l m u p q l' u' : ℤ) : Prop :=
  (p = l ∧ q = m - 1 ∧ l' = m + 1 ∧ u' = u) ∨ (p = m + 1 ∧ q = u ∧ l' = l ∧ u' = m - 1)

/-- One round: the part is sorted, if it has up to three elements, or it is
split into halves, the first of them not the larger one. Between the steps the
values stay those of the part. -/
theorem Orders.sortRound (orders : Orders comp D lt) {s : Sorting α σ} (more : l < u)
    (each : ∀ k, l ≤ k → k ≤ u → D (s.values k)) :
    Ensures (sortRound comp l u) s
      (fun parts t => Rearranged l u s.values t.values ∧
        (parts = none → SortedFrom lt l u t.values) ∧
        ∀ p q l' u', parts = some ((p, q), l', u') →
          3 ≤ u - l ∧ 2 * (q - p + 1) ≤ u - l ∧
            ∃ m, (l < m ∧ m < u) ∧ Halves l m u p q l' u' ∧ Split lt l m u t.values)
      fun _ _ => False := by
  rw [ProfiLua.sortRound]
  apply (orders.sortEnds more (each l le_rfl (by omega)) (each u (by omega) le_rfl)).bind
  rintro _ t ⟨first, ends⟩
  apply Ensures.ite
  · intro two
    apply Ensures.pure
    refine ⟨first, fun _ => sortedFrom_two (by omega) ends, ?_⟩
    rintro p q l' u' ⟨⟩
  · intro two
    have each' := first.all each
    apply (orders.sortMiddle (i := (l + u) / 2) (by omega) each' ends).bind
    rintro _ t' ⟨second, low, high⟩
    have each'' := second.all each'
    apply Ensures.ite
    · intro three
      apply Ensures.pure
      refine ⟨first.trans second, ?_, ?_⟩
      · intro _
        exact sortedFrom_three orders each'' (by omega) (by omega) low high
      · rintro p q l' u' ⟨⟩
    · intro three
      have middle : l < (l + u) / 2 ∧ (l + u) / 2 < u - 1 := by omega
      generalize (l + u) / 2 = i at low high middle ⊢
      rw [ensures_sortGet, Program.ensures_bind, ensures_swapValues]
      have third : Rearranged l u t'.values (t'.swap i (u - 1)).values :=
        .swapAt _ (by omega) (by omega)
      have parts : Partitioned lt (t'.values i) l l (u - 1) u (t'.swap i (u - 1)).values :=
        .start orders middle (each'' i (by omega) (by omega)) low high
      apply (orders.partitionLoop parts (third.all each'') (by omega) (by omega)).bind
      rintro m t'' ⟨fourth, within, parts'⟩
      rw [Program.ensures_bind, ensures_swapValues]
      have fifth : Rearranged l u t''.values (t''.swap (u - 1) m).values :=
        .swapAt _ (by omega) (by omega)
      have whole := (((first.trans second).trans third).trans fourth).trans fifth
      have split : Split lt l m u (t''.swap (u - 1) m).values := parts'.split within
      apply Ensures.ite
      · intro smaller
        apply Ensures.pure
        refine ⟨whole, by rintro ⟨⟩, ?_⟩
        rintro p q l' u' ⟨⟩
        exact ⟨by omega, by omega, m, within, .inl ⟨rfl, rfl, rfl, rfl⟩, split⟩
      · intro larger
        apply Ensures.pure
        refine ⟨whole, by rintro ⟨⟩, ?_⟩
        rintro p q l' u' ⟨⟩
        exact ⟨by omega, by omega, m, within, .inr ⟨rfl, rfl, rfl, rfl⟩, split⟩

/-- The program sorts the values between `l` and `u`, without stopping. -/
def Sorts (D : α → Prop) (lt : α → α → Bool) (l u : ℤ) (x : SortM α σ ε PUnit) : Prop :=
  ∀ s, (∀ k, l ≤ k → k ≤ u → D (s.values k)) →
    Ensures x s (fun _ t => Rearranged l u s.values t.values ∧ SortedFrom lt l u t.values)
      fun _ _ => False

/-- What is in order stays so when other places change. -/
theorem SortedFrom.outside {a b : ℤ → α} {p q : ℤ} (order : SortedFrom lt l u a)
    (some : Rearranged p q a b) (apart : u < p ∨ q < l) : SortedFrom lt l u b := by
  intro k k' first less last
  rw [some.outside (by omega), some.outside (by omega)]
  exact order k k' first less last

/-- A part of any size, if the recursion sorts the smaller ones: one half is
sorted by the call, the other by the rest of the loop. By induction on the
rounds; each of them leaves a shorter part. -/
theorem Orders.sortLoop (orders : Orders comp D lt) {inner : ℤ → ℤ → SortM α σ ε PUnit}
    {rounds : Nat} (size : ℤ)
    (calls : ∀ p q, 3 ≤ size → 2 * (q - p + 1) ≤ size → Sorts D lt p q (inner p q))
    (fits : u - l ≤ size) (enough : (u - l).toNat < rounds) :
    Sorts D lt l u (sortLoop comp inner rounds l u) := by
  induction rounds generalizing l u with
  | zero => omega
  | succ rounds ih =>
      intro s each
      rw [ProfiLua.sortLoop]
      apply Ensures.ite
      · intro more
        apply (orders.sortRound more each).bind
        rintro parts t ⟨kept, done, rest⟩
        rcases parts with _ | ⟨⟨p, q⟩, l', u'⟩
        · exact Ensures.pure ⟨kept, done rfl⟩
        · obtain ⟨long, half, m, within, halves, split⟩ := rest p q l' u' rfl
          -- the call and the loop work on different sides of the pivot
          have sides :
              (l ≤ p ∧ q < m ∧ m < l' ∧ u' ≤ u) ∨ (m < p ∧ q ≤ u ∧ l ≤ l' ∧ u' < m) := by
            unfold Halves at halves
            omega
          have each' := kept.all each
          dsimp only
          apply (calls p q (by omega) (by omega) t _).bind
          · rintro _ t' ⟨called, order⟩
            have inside : Rearranged l u t.values t'.values := called.mono (by omega) (by omega)
            have each'' := inside.all each'
            apply (ih (l := l') (u := u') _ _ t' _).mono
            · rintro _ t'' ⟨looped, order'⟩
              have inside' : Rearranged l u t'.values t''.values :=
                looped.mono (by omega) (by omega)
              -- so the pivot still splits the whole when both sides are in another order
              have split' : Split lt l m u t''.values :=
                (split.rearranged (by omega) called).rearranged (by omega) looped
              have order'' : SortedFrom lt p q t''.values := order.outside looped (by omega)
              have both :
                  SortedFrom lt l (m - 1) t''.values ∧ SortedFrom lt (m + 1) u t''.values := by
                rcases halves with ⟨rfl, rfl, rfl, rfl⟩ | ⟨rfl, rfl, rfl, rfl⟩
                · exact ⟨order'', order'⟩
                · exact ⟨order', order''⟩
              refine ⟨(kept.trans inside).trans inside', ?_⟩
              exact split'.sortedFrom orders (inside'.all each'') (by omega) both.1 both.2
            · intro _ _ none
              exact none
            · unfold Halves at halves
              omega
            · unfold Halves at halves
              omega
            · intro k low high
              exact each'' k (by omega) (by omega)
          · intro k low high
            exact each' k (by omega) (by omega)
      · intro none
        exact Ensures.pure ⟨.refl _ _ _, sortedFrom_short (by omega)⟩

/-- With enough rounds and levels a part of any size is sorted. By induction on
the depth: the call is for at most half of the part. -/
theorem Orders.auxsort (orders : Orders comp D lt) {rounds depth : Nat}
    (enough : (u - l).toNat < rounds) (some : 0 < depth) (deep : (u - l + 1).toNat < 2 ^ depth) :
    Sorts D lt l u (auxsort comp rounds depth l u) := by
  induction depth generalizing l u with
  | zero => omega
  | succ depth ih =>
      rw [ProfiLua.auxsort]
      apply orders.sortLoop (u - l) _ le_rfl enough
      intro p q long half
      rw [Nat.pow_succ] at deep
      have nested : depth ≠ 0 := by
        rintro rfl
        rw [Nat.pow_zero] at deep
        omega
      exact ih (by omega) (by omega) (by omega)

end Order

/-- `table.sort` with a comparison that is an order for the values at `1` to `n`: it ends
without an error, these values are sorted, and everything else is where it was. -/
theorem sort_sorts {comp : Comparison α σ ε} {D : α → Prop} {lt : α → α → Bool}
    (orders : Orders comp D lt) (rounds depth n : Nat) (s : Sorting α σ) (enough : n ≤ rounds)
    (rounded : 0 < rounds) (some : 0 < depth) (deep : n < 2 ^ depth)
    (each : ∀ k : ℤ, 1 ≤ k → k ≤ n → D (s.values k)) :
    Ensures (sort comp rounds depth n) s
      (fun _ t => Rearranged 1 n s.values t.values ∧ SortedFrom lt 1 n t.values)
      fun _ _ => False := by
  exact orders.auxsort (l := 1) (u := n) (by omega) some (by omega) s each

/-- `<` on integers, asked and counted, orders all of them. -/
def countedLess : Comparison ℤ Nat Empty := fun x y asked => (.ok (decide (x < y)), asked + 1)

/-- The sample comparison counts its calls and is an order all the same. -/
theorem countedLess_orders : Orders countedLess (fun _ => True) fun x y => decide (x < y) := by
  constructor
  · intro x y _ _ asked
    rfl
  · intro x y _ _ below
    rw [decide_eq_true_eq] at below
    rw [decide_eq_false_iff_not]
    omega
  · intro x y z _ _ _ low high
    rw [decide_eq_false_iff_not] at low high ⊢
    omega

/-- Five values from the largest to the smallest. -/
theorem sort_sorts_descending :
    Ensures (sort countedLess 5 3 5) ⟨fun k => -k, 0⟩
      (fun _ t => Rearranged 1 5 (fun k => -k) t.values ∧
        SortedFrom (fun x y => decide (x < y)) 1 5 t.values)
      fun _ _ => False :=
  sort_sorts countedLess_orders 5 3 5 ⟨fun k => -k, 0⟩ (by decide) (by decide) (by decide)
    (by decide) fun _ _ _ => trivial

end ProfiLua
