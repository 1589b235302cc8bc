import Mathlib.Logic.Function.Basic
import Mathlib.Data.List.Nodup

/-!
Stores with keys, and operations that work under one key.

An operation that reads and writes under its own key alone does not see what
was done under another: two of them under different keys give the same answers
and the same store in either order (`KeyedOp.commute`). A list of entries, each
of which has a key, is such a store: it is looked up from the front.
-/

namespace Program

variable {κ α β ρ : Type} [DecidableEq κ]

/-! ### Operations -/

/-- An operation under one key. -/
structure KeyedOp (κ β ρ : Type) where
  key : κ
  act : β → β × ρ

namespace KeyedOp

/-- What the operation answers. -/
def answer (op : KeyedOp κ β ρ) (s : κ → β) : ρ := (op.act (s op.key)).2

/-- The store after the operation. -/
def apply (op : KeyedOp κ β ρ) (s : κ → β) : κ → β :=
  Function.update s op.key (op.act (s op.key)).1

variable (s : κ → β) (a b : KeyedOp κ β ρ)

/-- Only what is under its key counts for the answer. -/
theorem answer_apply (apart : a.key ≠ b.key) : b.answer (a.apply s) = b.answer s := by
  unfold answer apply
  rw [Function.update_of_ne apart.symm]

/-- Operations under different keys can be done in either order. -/
theorem commute (apart : a.key ≠ b.key) : b.apply (a.apply s) = a.apply (b.apply s) := by
  unfold apply
  rw [Function.update_of_ne apart, Function.update_of_ne apart.symm]
  exact Function.update_comm apart _ _ _

end KeyedOp

/-! ### Lists as stores -/

section Lists

variable (key : α → κ) {before after : List α} {x y : α}

/-- The first entry with a key. -/
def firstWith (l : List α) (k : κ) : Option α := l.find? fun x => key x = k

theorem firstWith_cons (l : List α) :
    firstWith key (x :: l) = Function.update (firstWith key l) (key x) (some x) := by
  funext k
  by_cases here : k = key x
  · subst here
    simp [firstWith]
  · have skip : ¬key x = k := fun same => here same.symm
    simp [firstWith, Function.update_of_ne here, skip]

/-- Replacing the first entry with a key changes what is found under it only. -/
theorem firstWith_replaced (same : key y = key x) (first : ∀ c ∈ before, key c ≠ key x) :
    firstWith key (before ++ y :: after) =
      Function.update (firstWith key (before ++ x :: after)) (key x) (some y) := by
  funext k
  by_cases here : k = key x
  · subst here
    have miss : before.find? (fun c => key c = key x) = none :=
      List.find?_eq_none.mpr (by simpa using first)
    simp [firstWith, List.find?_append, miss, same]
  · have skip : ¬key x = k := fun same => here same.symm
    simp [firstWith, Function.update_of_ne here, same, skip]

/-- Taking an entry out leaves nothing under its key, if no key occurs twice. -/
theorem firstWith_removed (distinct : ((before ++ x :: after).map key).Nodup) :
    firstWith key (before ++ after) =
      Function.update (firstWith key (before ++ x :: after)) (key x) none := by
  funext k
  by_cases here : k = key x
  · subst here
    rw [Function.update_self]
    rw [List.map_append, List.map_cons, List.nodup_append] at distinct
    refine List.find?_eq_none.mpr fun y mem => ?_
    obtain mem | mem := List.mem_append.mp mem
    · simpa using distinct.2.2 _ (List.mem_map_of_mem mem) _ List.mem_cons_self
    · have ne : key y ≠ key x := fun same =>
        (List.nodup_cons.mp distinct.2.1).1 (same ▸ List.mem_map_of_mem mem)
      simpa using ne
  · have skip : ¬key x = k := fun same => here same.symm
    simp [firstWith, Function.update_of_ne here, skip]

end Lists

end Program
