import Mathlib.Data.List.Nodup
import Mathlib.Data.List.Perm.Subperm
import Mathlib.Logic.Function.Basic

/-!
Singly linked lists in memory.

A `Pool` is the memory for the cells of one type: what is allocated, and where.
A pointer is an address, or `none` for `NULL`. `Chain` says which cells a list
consists of; the walks of the usual list functions (find an entry, find the
last one, find the one before) are programs with a bound on their length, which
give `none` when they follow a pointer to no cell or never end. On a chain they
do neither (`Chain.find`, `Chain.last`, `Chain.before`), and the updates turn
chains into chains (`Chain.push`, `Chain.relink`, `Chain.unlink`, `Chain.erase`).
-/

namespace Program

variable {α : Type}

/-- A cell of a linked list. -/
structure Node (α : Type) where
  val : α
  next : Option Nat

/-- The cells of one type that are allocated. Addresses from `bound` on have
never been. -/
structure Pool (α : Type) where
  cell : Nat → Option (Node α)
  bound : Nat
  fresh : ∀ a, bound ≤ a → cell a = none

namespace Pool

def empty : Pool α := ⟨fun _ => none, 0, fun _ _ => rfl⟩

/-- `malloc`, and the cell filled; the new address is `bound`. -/
def alloc (p : Pool α) (n : Node α) : Pool α where
  cell := Function.update p.cell p.bound (some n)
  bound := p.bound + 1
  fresh := by
    intro a above
    rw [Function.update_of_ne (by omega)]
    exact p.fresh a (by omega)

/-- A write to the cell at `a`. -/
def put (p : Pool α) (a : Nat) (n : Node α) : Pool α :=
  if inside : a < p.bound then
    { p with
      cell := Function.update p.cell a (some n)
      fresh := by
        intro b above
        rw [Function.update_of_ne (by omega)]
        exact p.fresh b above }
  else p

/-- The pool without the cell at `a`. -/
def erase (p : Pool α) (a : Nat) : Pool α where
  cell := Function.update p.cell a none
  bound := p.bound
  fresh := by
    intro b above
    by_cases same : b = a
    · rw [same, Function.update_self]
    · rw [Function.update_of_ne same]
      exact p.fresh b above

/-- `free`; a cell that is not allocated cannot be freed. -/
def free (p : Pool α) (a : Nat) : Option (Pool α) :=
  if (p.cell a).isSome then some (p.erase a) else none

/-- The cells that are allocated. -/
def Allocated (p : Pool α) (a : Nat) : Prop := p.cell a ≠ none

@[simp] theorem empty_cell (a : Nat) : (empty : Pool α).cell a = none := rfl

@[simp] theorem alloc_bound (p : Pool α) (n : Node α) : (p.alloc n).bound = p.bound + 1 := rfl

@[simp] theorem alloc_cell_self (p : Pool α) (n : Node α) :
    (p.alloc n).cell p.bound = some n := by
  simp [alloc]

theorem alloc_cell_of_ne (p : Pool α) (n : Node α) {a : Nat} (ne : a ≠ p.bound) :
    (p.alloc n).cell a = p.cell a := by
  simp [alloc, Function.update_of_ne ne]

@[simp] theorem put_bound (p : Pool α) (a : Nat) (n : Node α) : (p.put a n).bound = p.bound := by
  unfold put
  split <;> rfl

/-- A write to one cell leaves the others as they were. -/
theorem put_cell_of_ne (p : Pool α) {a b : Nat} (ne : b ≠ a) (n : Node α) :
    (p.put a n).cell b = p.cell b := by
  unfold put
  split
  · exact Function.update_of_ne ne _ _
  · rfl

@[simp] theorem erase_bound (p : Pool α) (a : Nat) : (p.erase a).bound = p.bound := rfl

@[simp] theorem erase_cell_self (p : Pool α) (a : Nat) : (p.erase a).cell a = none := by
  simp [erase]

theorem erase_cell_of_ne (p : Pool α) {a b : Nat} (ne : b ≠ a) :
    (p.erase a).cell b = p.cell b := by
  simp [erase, Function.update_of_ne ne]

theorem free_of_cell {p : Pool α} {a : Nat} {n : Node α} (h : p.cell a = some n) :
    p.free a = some (p.erase a) := by
  simp [free, h]

/-- An allocated cell has an address that was handed out. -/
theorem lt_bound {p : Pool α} {a : Nat} {n : Node α} (h : p.cell a = some n) : a < p.bound := by
  by_contra above
  rw [p.fresh a (by omega)] at h
  cases h

/-- What was written to an allocated cell is there. A write to an address that
is not allocated would be lost. -/
theorem put_cell_self {p : Pool α} {a : Nat} {m : Node α} (h : p.cell a = some m) (n : Node α) :
    (p.put a n).cell a = some n := by
  unfold put
  rw [dif_pos (lt_bound h)]
  exact Function.update_self _ _ _

/-- Writing to a cell allocates and frees nothing. -/
theorem put_allocated {p : Pool α} {a : Nat} {m : Node α} (h : p.cell a = some m) (n : Node α)
    (b : Nat) : (p.put a n).Allocated b ↔ p.Allocated b := by
  unfold Allocated
  by_cases same : b = a
  · rw [same, put_cell_self h, h]
    simp
  · rw [put_cell_of_ne p same]

theorem alloc_allocated (p : Pool α) (n : Node α) (b : Nat) :
    (p.alloc n).Allocated b ↔ b = p.bound ∨ p.Allocated b := by
  unfold Allocated
  by_cases same : b = p.bound
  · simp [same]
  · rw [alloc_cell_of_ne p n same]
    simp [same]

/-- A new cell that is filled in changes no other. -/
theorem push_cell_of_ne (p : Pool α) (n n' : Node α) {a : Nat} (ne : a ≠ p.bound) :
    ((p.alloc n).put p.bound n').cell a = p.cell a :=
  (put_cell_of_ne _ ne _).trans (p.alloc_cell_of_ne _ ne)

theorem push_allocated (p : Pool α) (n n' : Node α) (b : Nat) :
    ((p.alloc n).put p.bound n').Allocated b ↔ b = p.bound ∨ p.Allocated b :=
  (put_allocated (p.alloc_cell_self n) n' b).trans (p.alloc_allocated n b)

theorem erase_allocated (p : Pool α) (a b : Nat) :
    (p.erase a).Allocated b ↔ b ≠ a ∧ p.Allocated b := by
  unfold Allocated
  by_cases same : b = a
  · simp [same]
  · rw [erase_cell_of_ne p same]
    simp [same]

/-! ### Walks -/

/-- The first entry from a pointer on that passes the test. -/
def find (p : Pool α) (test : α → Bool) : Nat → Option Nat → Option (Option Nat)
  | _, none => some none
  | 0, some _ => none
  | fuel + 1, some a =>
      match p.cell a with
      | none => none
      | some n => if test n.val then some (some a) else p.find test fuel n.next

/-- `while( p->next != NULL ) { pprev = p; p = p->next; }`, with what `pprev`
and `p` are in the end. -/
def last (p : Pool α) : Nat → Option Nat → Nat → Option (Option Nat × Nat)
  | 0, _, _ => none
  | fuel + 1, pprev, a =>
      match p.cell a with
      | none => none
      | some n =>
          match n.next with
          | none => some (pprev, a)
          | some b => p.last fuel (some a) b

/-- `while( p != NULL ) { if( p->next == tmp ) break; p = p->next; }`. -/
def before (p : Pool α) (tmp : Nat) : Nat → Option Nat → Option (Option Nat)
  | _, none => some none
  | 0, some _ => none
  | fuel + 1, some a =>
      match p.cell a with
      | none => none
      | some n => if n.next = some tmp then some (some a) else p.before tmp fuel n.next

/-- Takes `tmp` out of the list that starts at `head`; it is not freed. The
result is the new head. -/
def unlink (p : Pool α) (head : Option Nat) (tmp : Nat) : Option (Pool α × Option Nat) :=
  match p.cell tmp with
  | none => none
  | some t =>
      if head = some tmp then some (p, t.next)
      else
        match p.before tmp p.bound head with
        | none => none
        | some none => some (p, head)
        | some (some a) => (p.cell a).map fun n => (p.put a { n with next := t.next }, head)

end Pool

/-! ### Chains -/

/-- From `head` on, the list consists of these cells, with these values. -/
inductive Chain (p : Pool α) : Option Nat → List (Nat × α) → Prop where
  | nil : Chain p none []
  | cons {a : Nat} {v : α} {next : Option Nat} {rest : List (Nat × α)}
      (cell : p.cell a = some ⟨v, next⟩) (tail : Chain p next rest) :
      Chain p (some a) ((a, v) :: rest)

namespace Chain

variable {p q : Pool α} {head : Option Nat} {l front back : List (Nat × α)} {a b : Nat} {v : α}

theorem nil_iff : Chain p head [] ↔ head = none := by
  constructor
  · intro h
    cases h
    rfl
  · rintro rfl
    exact .nil

theorem exists_head (h : Chain p head l) (ne : l ≠ []) : ∃ a, head = some a := by
  cases h with
  | nil => exact absurd rfl ne
  | cons _ _ => exact ⟨_, rfl⟩

/-- The cells of a chain are allocated. -/
theorem cell_of_mem (h : Chain p head l) (mem : (a, v) ∈ l) :
    ∃ next, p.cell a = some ⟨v, next⟩ := by
  induction h with
  | nil => cases mem
  | cons cell _ ih =>
      cases mem with
      | head => exact ⟨_, cell⟩
      | tail _ mem => exact ih mem

theorem allocated_of_mem (h : Chain p head l) (mem : a ∈ l.map Prod.fst) : p.Allocated a := by
  obtain ⟨⟨b, v⟩, inside, rfl⟩ := List.mem_map.mp mem
  obtain ⟨next, cell⟩ := h.cell_of_mem inside
  simp [Pool.Allocated, cell]

/-- A chain depends on its own cells only. -/
theorem frame (h : Chain p head l) (same : ∀ a ∈ l.map Prod.fst, q.cell a = p.cell a) :
    Chain q head l := by
  induction h with
  | nil => exact .nil
  | cons cell _ ih =>
      refine .cons ((same _ (by simp)).trans cell) (ih fun b mem => same b ?_)
      exact List.mem_cons_of_mem _ mem

/-- The head decides the chain. -/
theorem unique {k : List (Nat × α)} (h : Chain p head l) (h' : Chain p head k) : l = k := by
  induction h generalizing k with
  | nil =>
      cases h'
      rfl
  | cons cell _ ih =>
      cases h' with
      | cons cell' tail' =>
          rw [cell] at cell'
          cases cell'
          rw [ih tail']

/-- The rest of a chain is a chain. -/
theorem suffix (h : Chain p head (front ++ (a, v) :: back)) :
    Chain p (some a) ((a, v) :: back) := by
  induction front generalizing head with
  | nil =>
      cases h with
      | cons cell tail => exact .cons cell tail
  | cons x front ih =>
      cases h with
      | cons _ tail => exact ih tail

/-- No cell occurs twice: a list that came back to one would never end. -/
theorem nodup (h : Chain p head l) : (l.map Prod.fst).Nodup := by
  induction h with
  | nil => exact List.nodup_nil
  | @cons a v next rest cell tail ih =>
      rw [List.map_cons, List.nodup_cons]
      refine ⟨fun mem => ?_, ih⟩
      obtain ⟨⟨b, w⟩, inside, same⟩ := List.mem_map.mp mem
      simp only at same
      subst same
      obtain ⟨front, back, rfl⟩ := List.append_of_mem inside
      have again := (Chain.cons cell tail).unique tail.suffix
      have sizes := congrArg List.length again
      simp only [List.length_cons, List.length_append] at sizes
      omega

/-- A chain is no longer than the pool. -/
theorem length_le (h : Chain p head l) : l.length ≤ p.bound := by
  have inside : ∀ a ∈ l.map Prod.fst, a ∈ List.range p.bound := by
    intro a mem
    obtain ⟨⟨b, v⟩, mem', rfl⟩ := List.mem_map.mp mem
    obtain ⟨next, cell⟩ := h.cell_of_mem mem'
    exact List.mem_range.mpr (Pool.lt_bound cell)
  have sizes := (List.subperm_of_subset h.nodup inside).length_le
  simpa using sizes

/-! ### Walks along a chain -/

/-- Looking an entry up finds the first one that passes the test. -/
theorem find (h : Chain p head l) (test : α → Bool) {fuel : Nat} (enough : l.length ≤ fuel) :
    p.find test fuel head = some ((l.find? fun x => test x.2).map Prod.fst) := by
  induction h generalizing fuel with
  | nil => cases fuel <;> rfl
  | @cons a v next rest cell tail ih =>
      obtain ⟨fuel, rfl⟩ : ∃ f, fuel = f + 1 := ⟨fuel - 1, by simp at enough; omega⟩
      simp only [Pool.find, cell]
      by_cases hit : test v = true
      · simp [hit]
      · rw [if_neg hit, ih (by simpa using enough)]
        simp [hit]

/-- The walk to the end finds the last entry and the one before it. -/
theorem last (h : Chain p (some a) (front ++ [(b, v)])) {fuel : Nat}
    (enough : front.length < fuel) (pprev : Option Nat) :
    p.last fuel pprev a = some ((front.getLast?.map Prod.fst).or pprev, b) := by
  induction front generalizing a fuel pprev with
  | nil =>
      obtain ⟨fuel, rfl⟩ : ∃ f, fuel = f + 1 := ⟨fuel - 1, by omega⟩
      cases h with
      | cons cell tail =>
          rw [nil_iff.mp tail] at cell
          simp [Pool.last, cell]
  | cons x front ih =>
      obtain ⟨fuel, rfl⟩ : ∃ f, fuel = f + 1 := ⟨fuel - 1, by omega⟩
      cases h with
      | @cons _ w next _ cell tail =>
          obtain ⟨c, rfl⟩ : ∃ c, next = some c := by
            cases front <;> cases tail <;> exact ⟨_, rfl⟩
          simp only [Pool.last, cell]
          rw [ih tail (by simpa using enough)]
          cases front with
          | nil => rfl
          | cons y front => simp [List.getLast?_cons]

/-- The walk to the entry before one that is in the list, behind the head. -/
theorem before {x : Nat × α} (h : Chain p head (front ++ x :: (a, v) :: back)) {fuel : Nat}
    (enough : front.length < fuel) : p.before a fuel head = some (some x.1) := by
  have distinct := h.nodup
  induction front generalizing head fuel with
  | nil =>
      obtain ⟨fuel, rfl⟩ : ∃ f, fuel = f + 1 := ⟨fuel - 1, by omega⟩
      cases h with
      | cons cell tail =>
          cases tail with
          | cons _ _ => simp [Pool.before, cell]
  | cons y front ih =>
      obtain ⟨fuel, rfl⟩ : ∃ f, fuel = f + 1 := ⟨fuel - 1, by omega⟩
      cases h with
      | @cons _ w next _ cell tail =>
          have later := tail.nodup
          simp only [Pool.before, cell]
          rw [if_neg ?_]
          · exact ih tail (by simpa using enough) later
          · -- the walk has not reached the entry before `a`
            rintro rfl
            cases front with
            | nil =>
                cases tail
                simp at later
            | cons z front =>
                cases tail
                simp at later

/-! ### Updates -/

/-- A new cell in front: allocated, then linked to the old head. -/
theorem push (h : Chain p head l) (n : Node α) (v : α) :
    Chain ((p.alloc n).put p.bound ⟨v, head⟩) (some p.bound) ((p.bound, v) :: l) := by
  refine .cons (Pool.put_cell_self (p.alloc_cell_self n) _) (h.frame fun a inside => ?_)
  refine p.push_cell_of_ne n _ ?_
  rintro rfl
  exact h.allocated_of_mem inside (p.fresh _ (Nat.le_refl _))

/-- Freeing a cell outside the chain. -/
theorem erase (h : Chain p head l) (outside : a ∉ l.map Prod.fst) : Chain (p.erase a) head l := by
  refine h.frame fun b inside => Pool.erase_cell_of_ne _ ?_
  rintro rfl
  exact outside inside

/-- A chain may get another value in one of its cells and another continuation
behind it. -/
theorem relink {w w' : α} {next : Option Nat} {back' : List (Nat × α)}
    (h : Chain p head (front ++ (a, w) :: back))
    (same : ∀ b ∈ front.map Prod.fst, q.cell b = p.cell b) (cell : q.cell a = some ⟨w', next⟩)
    (tail : Chain q next back') : Chain q head (front ++ (a, w') :: back') := by
  induction front generalizing head with
  | nil =>
      cases h
      exact .cons cell tail
  | cons x front ih =>
      cases h with
      | cons first rest =>
          refine .cons ((same _ (by simp)).trans first) (ih rest fun b mem => same b ?_)
          exact List.mem_cons_of_mem _ mem

/-- The addresses on either side of an entry are not its own. -/
theorem ne_of_mem (h : Chain p head (front ++ (a, v) :: back)) :
    (∀ b ∈ front.map Prod.fst, b ≠ a) ∧ ∀ b ∈ back.map Prod.fst, b ≠ a := by
  have distinct := h.nodup
  rw [List.map_append, List.map_cons, List.nodup_append] at distinct
  obtain ⟨_, behind, apart⟩ := distinct
  refine ⟨fun b mem => apart b mem a (by simp), fun b mem same => ?_⟩
  rw [same] at mem
  exact (List.nodup_cons.mp behind).1 mem

theorem mem_without (h : Chain p head (front ++ (a, v) :: back)) (b : Nat) :
    b ∈ (front ++ back).map Prod.fst ↔ b ≠ a ∧ b ∈ (front ++ (a, v) :: back).map Prod.fst := by
  have elsewhere := h.ne_of_mem
  simp only [List.map_append, List.map_cons, List.mem_append, List.mem_cons]
  constructor
  · intro inside
    exact ⟨inside.elim (elsewhere.1 b) (elsewhere.2 b), by tauto⟩
  · rintro ⟨ne, inside⟩
    tauto

/-- Unlinking takes the entry out of the chain. Its own cell keeps its contents,
and only cells before it are written. -/
theorem unlink (h : Chain p head (front ++ (a, v) :: back)) :
    ∃ q head', p.unlink head a = some (q, head') ∧ Chain q head' (front ++ back) ∧
      (∀ b, b ∉ front.map Prod.fst → q.cell b = p.cell b) ∧
      ∀ b, q.Allocated b ↔ p.Allocated b := by
  have behind := h.suffix
  cases behind with
  | @cons _ _ next _ cell tail =>
      unfold Pool.unlink
      simp only [cell]
      obtain rfl | ⟨init, ⟨c, w⟩, rfl⟩ := List.eq_nil_or_concat' front
      · cases h
        rw [if_pos rfl]
        exact ⟨p, next, rfl, tail, fun _ _ => rfl, fun _ => Iff.rfl⟩
      · have elsewhere := h.ne_of_mem
        rw [List.append_assoc, List.singleton_append] at h
        have apart := h.ne_of_mem
        obtain ⟨next', previous⟩ := h.cell_of_mem (a := c) (v := w) (by simp)
        have notHead : head ≠ some a := by
          rintro rfl
          cases init with
          | nil =>
              cases h
              exact elsewhere.1 a (by simp) rfl
          | cons x init =>
              cases h
              exact elsewhere.1 a (by simp) rfl
        have steps : init.length < p.bound := by
          have size := h.length_le
          simp at size
          omega
        simp only [if_neg notHead, h.before steps, previous, Option.map_some]
        refine ⟨_, _, rfl, ?_, ?_, ?_⟩
        · rw [List.append_assoc, List.singleton_append]
          refine h.relink (fun b mem => p.put_cell_of_ne (apart.1 b mem) _)
            (Pool.put_cell_self previous _) (tail.frame fun b mem => ?_)
          exact p.put_cell_of_ne (apart.2 b (List.mem_cons_of_mem _ mem)) _
        · intro b outside
          refine p.put_cell_of_ne (fun same => outside ?_) _
          simp [same]
        · exact Pool.put_allocated previous _

end Chain

end Program
