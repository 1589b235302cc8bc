import Mathlib.Data.List.FinRange
import ProfiLua.Program.Pool

/-!
Chained scatter tables.

The cells of a vector (a `Pool` with a cell at every address below its bound)
hold keys, and every key has a main position in it. All keys with one main
position can be reached from there, so a key is looked up by a walk
(`Scatter.find`). A new key goes to its main position if that can be had
(`Scatter.relabel`). Otherwise it needs an idle cell: for itself, behind the main
position, when the key found there is in its own (`Appends`), and for the key
found there when it is not (`Moves`, `Scatter.displace`; Brent's variation).

A key that is taken out stays in its chain as a cell without a key. Such a cell
can be claimed again, and is then on chains of two main positions.
-/

namespace Program

variable {α κ : Type}

namespace Pool

variable (p : Pool α)

/-- The link of a cell. -/
def succ (i : Nat) : Option Nat := (p.cell i).bind Node.next

/-- A walk depends on the links and on what the test is. -/
theorem find_congr {p q : Pool α} (test : α → Bool)
    (same : ∀ i, (q.cell i).map (fun n => (test n.val, n.next)) =
      (p.cell i).map fun n => (test n.val, n.next))
    (fuel : Nat) (head : Option Nat) : q.find test fuel head = p.find test fuel head := by
  induction fuel generalizing head with
  | zero => cases head <;> rfl
  | succ fuel ih =>
      cases head with
      | none => rfl
      | some i =>
          have here := same i
          cases hp : p.cell i with
          | none =>
              rw [hp, Option.map_none, Option.map_eq_none_iff] at here
              simp only [find, hp, here]
          | some n =>
              rw [hp, Option.map_some, Option.map_eq_some_iff] at here
              obtain ⟨m, hq, eq⟩ := here
              rw [Prod.mk.injEq] at eq
              simp only [find, hp, hq, eq.1, eq.2, ih]

theorem succ_eq {p : Pool α} {i : Nat} {n : Node α} (cell : p.cell i = some n) :
    p.succ i = n.next := by
  simp [succ, cell]

/-- A vector of unlinked cells. -/
def vector (size : Nat) (v : α) : Pool α where
  cell i := if i < size then some ⟨v, none⟩ else none
  bound := size
  fresh := by
    intro i above
    rw [if_neg (by omega)]

@[simp] theorem vector_bound (size : Nat) (v : α) : (vector size v).bound = size := rfl

theorem vector_cell {size i : Nat} (v : α) (inside : i < size) :
    (vector size v).cell i = some ⟨v, none⟩ :=
  if_pos inside

end Pool

/-- How the contents of a cell are read: the key it holds, the key that was taken
out of it, and whether it has ever held one. -/
structure Labels (α κ : Type) where
  key : α → Option κ
  former : α → Option κ
  used : α → Bool
  used_of_key : ∀ v k, key v = some k → used v = true
  former_of_key : ∀ v k, key v = some k → former v = none

namespace Labels

variable (L : Labels α κ) (p : Pool α)

/-- The key in a cell. -/
def keyAt (i : Nat) : Option κ := (p.cell i).bind fun n => L.key n.val

/-- The key that was taken out of a cell. -/
def formerAt (i : Nat) : Option κ := (p.cell i).bind fun n => L.former n.val

def usedAt (i : Nat) : Bool := (p.cell i).any fun n => L.used n.val

variable {L p} {i : Nat} {n : Node α} {k : κ}

theorem keyAt_eq (cell : p.cell i = some n) : L.keyAt p i = L.key n.val := by
  simp [keyAt, cell]

theorem formerAt_eq (cell : p.cell i = some n) : L.formerAt p i = L.former n.val := by
  simp [formerAt, cell]

theorem usedAt_eq (cell : p.cell i = some n) : L.usedAt p i = L.used n.val := by
  simp [usedAt, cell]

theorem keyAt_eq_some : L.keyAt p i = some k ↔ ∃ n, p.cell i = some n ∧ L.key n.val = some k :=
  Option.bind_eq_some_iff

theorem usedAt_eq_true : L.usedAt p i = true ↔ ∃ n, p.cell i = some n ∧ L.used n.val = true := by
  simp [usedAt, Option.any_eq_true]

theorem usedAt_of_key (key : L.keyAt p i = some k) : L.usedAt p i = true := by
  obtain ⟨n, cell, key⟩ := keyAt_eq_some.mp key
  rw [usedAt_eq cell]
  exact L.used_of_key _ _ key

theorem ne_key_of_idle (idle : L.usedAt p i = false) (k : κ) : L.keyAt p i ≠ some k := by
  intro key
  rw [usedAt_of_key key] at idle
  cases idle

end Labels

/-- A chained scatter table: `main` is the main position of a key. -/
structure Scatter (L : Labels α κ) (main : κ → Nat) (p : Pool α) : Prop where
  allocated : ∀ i < p.bound, p.cell i ≠ none
  main_lt : ∀ k, main k < p.bound
  /-- Cells that never held a key are on no chain. -/
  linked : ∀ i j, p.succ i = some j → L.usedAt p i = true ∧ L.usedAt p j = true
  /-- Two chains do not run into each other. -/
  single : ∀ i j k, p.succ i = some k → p.succ j = some k → i = j
  ends : ∀ i < p.bound, ∃ l, Chain p (some i) l
  reach : ∀ i k, L.keyAt p i = some k →
    ∃ l, Chain p (some (main k)) l ∧ i ∈ l.map Prod.fst
  /-- A main position that is asked for holds one of its own keys, if any. -/
  anchor : ∀ i k k', L.keyAt p i = some k → L.keyAt p (main k) = some k' → main k' = main k
  distinct : ∀ i j k, L.keyAt p i = some k → L.keyAt p j = some k → i = j
  /-- On the way to a key there is no cell that it was taken out of. -/
  first : ∀ i k, L.keyAt p i = some k → ∀ l, Chain p (some (main k)) l →
    ∀ front back, l.map Prod.fst = front ++ i :: back → ∀ b ∈ front, L.formerAt p b ≠ some k

/-! ### Chains of a table -/

namespace Chain

variable {p q : Pool α} {head : Option Nat} {l : List (Nat × α)} {a b : Nat}

/-- Contents may change without the links, and the chains are the same cells. -/
theorem rewrite (h : Chain p head l)
    (same : ∀ i ∈ l.map Prod.fst, q.cell i ≠ none ∧ q.succ i = p.succ i) :
    ∃ k, Chain q head k ∧ k.map Prod.fst = l.map Prod.fst := by
  induction h with
  | nil => exact ⟨[], .nil, rfl⟩
  | @cons a v next rest cell _ ih =>
      obtain ⟨k, tail, places⟩ := ih fun i mem => same i (List.mem_cons_of_mem _ mem)
      obtain ⟨here, link⟩ := same a (by simp)
      obtain ⟨⟨w, next'⟩, cell'⟩ := Option.ne_none_iff_exists'.mp here
      rw [Pool.succ_eq cell, Pool.succ_eq cell'] at link
      simp only at link
      subst link
      exact ⟨(a, w) :: k, .cons cell' tail, by simp [places]⟩

/-- Behind a cell comes its link. -/
theorem succ_mem (h : Chain p head l) (mem : a ∈ l.map Prod.fst) (link : p.succ a = some b) :
    b ∈ l.map Prod.fst := by
  induction h with
  | nil => cases mem
  | @cons c v next rest cell tail ih =>
      rw [List.map_cons, List.mem_cons] at mem
      rcases mem with rfl | mem
      · rw [Pool.succ_eq cell] at link
        simp only at link
        subst link
        cases tail with
        | cons _ _ => simp
      · exact List.mem_cons_of_mem _ (ih mem)

/-- A cell of a chain is its head or has a cell of the chain before it. -/
theorem split_before (h : Chain p (some a) l) (mem : b ∈ l.map Prod.fst) (ne : b ≠ a) :
    ∃ front x v back, l = front ++ x :: (b, v) :: back ∧ p.succ x.1 = some b := by
  obtain ⟨⟨b', v⟩, inside, rfl⟩ := List.mem_map.mp mem
  obtain ⟨front, back, rfl⟩ := List.append_of_mem inside
  obtain rfl | ⟨init, x, rfl⟩ := List.eq_nil_or_concat' front
  · cases h
    exact absurd rfl ne
  · refine ⟨init, x, v, back, by simp, ?_⟩
    rw [List.append_assoc, List.singleton_append] at h
    have later := h.suffix
    cases later with
    | cons cell tail =>
        cases tail with
        | cons _ _ => simp [Pool.succ, cell]

theorem succ_ne (h : Chain p (some a) l) : p.succ a ≠ some a := by
  intro loop
  have distinct := h.nodup
  cases h with
  | cons cell tail =>
      rw [Pool.succ_eq cell] at loop
      simp only at loop
      subst loop
      cases tail
      simp at distinct

end Chain

namespace Scatter

variable {L : Labels α κ} {main : κ → Nat} {p q : Pool α} {k k0 : κ} {a f m : Nat}

/-- From a main position on, a chain has every cell with one of its keys. The
keys of other main positions may be on it as well, if it begins with one of
them. -/
theorem chain (S : Scatter L main p) (k : κ) :
    ∃ l, Chain p (some (main k)) l ∧
      ∀ i k', main k' = main k → L.keyAt p i = some k' → i ∈ l.map Prod.fst := by
  obtain ⟨l, path⟩ := S.ends _ (S.main_lt k)
  refine ⟨l, path, fun i k' same key => ?_⟩
  obtain ⟨l', path', mem⟩ := S.reach i k' key
  rw [same] at path'
  rwa [path.unique path']

/-- Looking a key up finds the cell that holds it, whatever else the walk comes
by, and finds nothing if no cell does. -/
theorem find (S : Scatter L main p) (test : α → Bool)
    (hits : ∀ i n, p.cell i = some n → (test n.val = true ↔ L.key n.val = some k)) :
    ∃ r, p.find test p.bound (some (main k)) = some r ∧
      ∀ i, r = some i ↔ L.keyAt p i = some k := by
  obtain ⟨l, path, complete⟩ := S.chain k
  refine ⟨_, path.find test path.length_le, fun i => ?_⟩
  have sound : ∀ x : Nat × α, l.find? (fun x => test x.2) = some x →
      L.keyAt p x.1 = some k := by
    intro x found
    obtain ⟨next, cell⟩ := path.cell_of_mem (List.mem_of_find?_eq_some found)
    rw [Labels.keyAt_eq cell]
    exact (hits _ _ cell).mp (List.find?_some (p := fun x : Nat × α => test x.2) found)
  constructor
  · intro found
    obtain ⟨x, hit, rfl⟩ := Option.map_eq_some_iff.mp found
    exact sound x hit
  · intro key
    obtain ⟨⟨j, v⟩, mem, rfl⟩ := List.mem_map.mp (complete i k rfl key)
    obtain ⟨next, cell⟩ := path.cell_of_mem mem
    have hit : test v = true := by
      rw [hits _ _ cell, ← key, Labels.keyAt_eq cell]
    obtain ⟨x, found⟩ := Option.isSome_iff_exists.mp
      (List.find?_isSome.mpr ⟨(j, v), mem, hit⟩ : (l.find? fun x => test x.2).isSome = true)
    rw [found, Option.map_some, S.distinct _ _ k (sound x found) key]

/-- A walk that also stops where the key was taken out comes to the cell that
holds it. -/
theorem find_first (S : Scatter L main p) (test : α → Bool) {i : Nat}
    (key : L.keyAt p i = some k) (complete : ∀ v, L.key v = some k → test v = true)
    (sound : ∀ v, test v = true → L.key v = some k ∨ L.former v = some k) :
    p.find test p.bound (some (main k)) = some (some i) := by
  obtain ⟨l, path, mem⟩ := S.reach i k key
  obtain ⟨⟨i, v⟩, inside, rfl⟩ := List.mem_map.mp mem
  obtain ⟨front, back, rfl⟩ := List.append_of_mem inside
  obtain ⟨next, cell⟩ := path.cell_of_mem inside
  have apart := path.ne_of_mem
  have passed : ∀ x ∈ front, test x.2 = false := by
    intro x early
    obtain ⟨next', cell'⟩ := path.cell_of_mem (List.mem_append_left _ early)
    by_contra hit
    rcases sound x.2 (Bool.eq_true_of_not_eq_false hit) with held | former
    · have same := S.distinct x.1 i k ((Labels.keyAt_eq cell').trans held) key
      exact apart.1 x.1 (List.mem_map_of_mem early) same
    · refine S.first i k key _ path (front.map Prod.fst) (back.map Prod.fst) (by simp) x.1
        (List.mem_map_of_mem early) ?_
      rw [Labels.formerAt_eq cell', former]
  have hit : test v = true := complete v ((Labels.keyAt_eq cell).symm.trans key)
  rw [path.find test path.length_le, List.find?_append,
    List.find?_eq_none.mpr fun x early => by simp [passed x early]]
  simp [hit]

/-- The main position of a key that is held is not idle. -/
theorem main_used (S : Scatter L main p) {i : Nat} (key : L.keyAt p i = some k) :
    L.usedAt p (main k) = true := by
  obtain ⟨l, path, mem⟩ := S.reach i k key
  by_cases home : i = main k
  · rw [← home]
    exact Labels.usedAt_of_key key
  · obtain ⟨front, x, v, back, rfl, link⟩ := path.split_before mem home
    cases front with
    | nil =>
        cases path
        exact (S.linked _ _ link).1
    | cons y front =>
        cases path with
        | cons cell tail =>
            obtain ⟨b, rfl⟩ := tail.exists_head (by simp)
            exact (S.linked _ b (Pool.succ_eq cell)).1

/-- A cell whose key is not in its main position has one before it. -/
theorem before (S : Scatter L main p) (key : L.keyAt p m = some k) (away : main k ≠ m) :
    ∃ a, p.before m p.bound (some (main k)) = some (some a) ∧ p.succ a = some m := by
  obtain ⟨l, path, mem⟩ := S.reach m k key
  obtain ⟨front, x, v, back, rfl, link⟩ := path.split_before mem away.symm
  have size := path.length_le
  simp only [List.length_append, List.length_cons] at size
  exact ⟨x.1, path.before (by omega), link⟩

theorem main_ne_idle (S : Scatter L main p) {i : Nat} (key : L.keyAt p i = some k)
    (idle : L.usedAt p f = false) : main k ≠ f := by
  rintro rfl
  rw [S.main_used key] at idle
  cases idle

theorem not_linked_idle (S : Scatter L main p) (idle : L.usedAt p f = false) (i : Nat) :
    p.succ i ≠ some f := by
  intro link
  rw [(S.linked _ _ link).2] at idle
  cases idle

theorem idle_not_linked (S : Scatter L main p) (idle : L.usedAt p f = false) (i : Nat) :
    p.succ f ≠ some i := by
  intro link
  rw [(S.linked _ _ link).1] at idle
  cases idle

theorem succ_ne (S : Scatter L main p) (i : Nat) : p.succ i ≠ some i := by
  intro link
  obtain ⟨n, cell, -⟩ := Option.bind_eq_some_iff.mp link
  obtain ⟨l, path⟩ := S.ends i (Pool.lt_bound cell)
  exact path.succ_ne link

/-- A walk does not come to an idle cell. -/
theorem not_mem_of_idle (S : Scatter L main p) (idle : L.usedAt p f = false) {h : Nat}
    {l : List (Nat × α)} (path : Chain p (some h) l) (ne : f ≠ h) : f ∉ l.map Prod.fst := by
  intro mem
  obtain ⟨front, x, v, back, rfl, link⟩ := path.split_before mem ne
  rw [(S.linked _ _ link).2] at idle
  cases idle

/-- A vector of idle cells. -/
theorem vacant (inRange : ∀ k, main k < p.bound)
    (idle : ∀ i < p.bound, ∃ v, p.cell i = some ⟨v, none⟩ ∧ L.used v = false) :
    Scatter L main p := by
  have unlinked : ∀ i j, p.succ i ≠ some j := by
    intro i j link
    obtain ⟨n, cell, -⟩ := Option.bind_eq_some_iff.mp link
    obtain ⟨v, cell', -⟩ := idle i (Pool.lt_bound cell)
    rw [Pool.succ_eq cell'] at link
    cases link
  have keyless : ∀ i k, L.keyAt p i ≠ some k := by
    intro i k held
    obtain ⟨n, cell, key⟩ := Labels.keyAt_eq_some.mp held
    obtain ⟨v, cell', unused⟩ := idle i (Pool.lt_bound cell)
    rw [cell'] at cell
    cases cell
    rw [L.used_of_key _ _ key] at unused
    cases unused
  constructor
  · intro i below
    obtain ⟨v, cell, -⟩ := idle i below
    simp [cell]
  · exact inRange
  · exact fun i j link => absurd link (unlinked i j)
  · exact fun i _ k link => absurd link (unlinked i k)
  · intro i below
    obtain ⟨v, cell, -⟩ := idle i below
    exact ⟨_, .cons cell .nil⟩
  · exact fun i k held => absurd held (keyless i k)
  · exact fun i k _ held => absurd held (keyless i k)
  · exact fun i _ k held => absurd held (keyless i k)
  · exact fun i k held => absurd held (keyless i k)

/-- A table whose keys are all among fewer than it has cells has an idle cell. -/
theorem exists_idle (S : Scatter L main p) (ks : List κ)
    (held : ∀ i, L.usedAt p i = true → ∃ k ∈ ks, L.keyAt p i = some k)
    (room : ks.length < p.bound) : ∃ i < p.bound, L.usedAt p i = false := by
  by_contra full
  push Not at full
  have key : ∀ i : Fin p.bound, ∃ k ∈ ks, L.keyAt p i = some k := fun i =>
    held i (Bool.eq_true_of_not_eq_false (full i i.isLt))
  choose place inside holds using key
  have apart : Function.Injective place := by
    intro i j same
    have second := holds j
    rw [← same] at second
    exact Fin.ext (S.distinct i j _ (holds i) second)
  have listed : (List.ofFn place).length ≤ ks.length := by
    refine (List.subperm_of_subset (List.nodup_ofFn.mpr apart) fun k mem => ?_).length_le
    obtain ⟨i, rfl⟩ := List.mem_ofFn.mp mem
    exact inside i
  rw [List.length_ofFn] at listed
  omega

/-! ### Updates -/

/-- Keys may be taken out, and a key that is not in the table may be put into its
main position. -/
theorem relabel (S : Scatter L main p) (size : q.bound = p.bound)
    (cells : ∀ i < p.bound, q.cell i ≠ none) (links : ∀ i, q.succ i = p.succ i)
    (used : ∀ i, L.usedAt p i = true → L.usedAt q i = true)
    (keys : ∀ i k, L.keyAt q i = some k →
      L.keyAt p i = some k ∨ i = main k ∧ ∀ j, L.keyAt p j ≠ some k)
    (formers : ∀ i k, L.formerAt q i = some k →
      L.formerAt p i = some k ∨ L.keyAt p i = some k) :
    Scatter L main q := by
  have walk : ∀ {h l}, Chain p h l → ∃ k, Chain q h k ∧ k.map Prod.fst = l.map Prod.fst := by
    intro h l path
    refine path.rewrite fun i mem => ⟨cells i ?_, links i⟩
    obtain ⟨n, cell⟩ := Option.ne_none_iff_exists'.mp (path.allocated_of_mem mem)
    exact Pool.lt_bound cell
  exact
    { allocated := by rw [size]; exact cells
      main_lt := by rw [size]; exact S.main_lt
      linked := by
        intro i j link
        rw [links] at link
        obtain ⟨first, second⟩ := S.linked i j link
        exact ⟨used i first, used j second⟩
      single := by
        intro i j k first second
        rw [links] at first second
        exact S.single i j k first second
      ends := by
        intro i inside
        rw [size] at inside
        obtain ⟨l, path⟩ := S.ends i inside
        obtain ⟨l', path', _⟩ := walk path
        exact ⟨l', path'⟩
      reach := by
        intro i k key
        rcases keys i k key with old | ⟨rfl, new⟩
        · obtain ⟨l, path, mem⟩ := S.reach i k old
          obtain ⟨l', path', places⟩ := walk path
          exact ⟨l', path', places ▸ mem⟩
        · obtain ⟨l, path⟩ := S.ends _ (S.main_lt k)
          obtain ⟨l', path', places⟩ := walk path
          refine ⟨l', path', ?_⟩
          cases path'
          simp
      anchor := by
        intro i k k' key key'
        rcases keys _ k' key' with old' | ⟨same, _⟩
        · rcases keys i k key with old | ⟨rfl, _⟩
          · exact S.anchor i k k' old old'
          · rw [key] at key'
            cases key'
            rfl
        · exact same.symm
      distinct := by
        intro i j k first second
        rcases keys i k first with old | ⟨rfl, new⟩
        · rcases keys j k second with old' | ⟨rfl, new⟩
          · exact S.distinct i j k old old'
          · exact absurd old (new i)
        · rcases keys j k second with old' | ⟨rfl, _⟩
          · exact absurd old' (new j)
          · rfl
      first := by
        intro i k key l path front back parts b mem former
        rcases keys i k key with old | ⟨rfl, _⟩
        · obtain ⟨l₀, path₀⟩ := S.ends _ (S.main_lt k)
          obtain ⟨l', path', places⟩ := walk path₀
          rw [path.unique path', places] at parts
          rcases formers b k former with before | held
          · exact S.first i k old l₀ path₀ front back parts b mem before
          · have nodup := path₀.nodup
            rw [parts, List.nodup_append] at nodup
            exact nodup.2.2 b mem i (by simp) (S.distinct b i k held old)
        · -- nothing comes before a main position
          have nodup := path.nodup
          cases path with
          | cons cell tail =>
              rw [parts, List.nodup_append] at nodup
              cases front with
              | nil => cases mem
              | cons c front =>
                  rw [List.map_cons, List.cons_append, List.cons.injEq] at parts
                  exact nodup.2.2 c (by simp) _ (by simp) parts.1.symm }

/-- A chain that the moved cell is not on stays the same places. -/
theorem unmoved (m f : Nat) {places : List Nat} (outside : m ∉ places) :
    (places.map fun i => if i = m then f else i) = places := by
  refine (List.map_congr_left fun i mem => if_neg ?_).trans (List.map_id _)
  rintro rfl
  exact outside mem

/-- The chains after the contents of `m` were moved to the idle cell `f`: the
cell before `m` is linked to `f`. -/
theorem walk_moved (S : Scatter L main p) {v w : α} {nx : Option Nat}
    (idle : L.usedAt p f = false) (atA : p.cell a = some ⟨w, some m⟩)
    (atM : p.cell m = some ⟨v, nx⟩) (newA : q.cell a = some ⟨w, some f⟩)
    (newF : q.cell f = some ⟨v, nx⟩)
    (other : ∀ i, i ≠ a → i ≠ f → i ≠ m → q.cell i = p.cell i) {h : Nat} {l : List (Nat × α)}
    (path : Chain p (some h) l) (hm : h ≠ m) (hf : h ≠ f) :
    ∃ l', Chain q (some h) l' ∧
      l'.map Prod.fst = (l.map Prod.fst).map fun i => if i = m then f else i := by
  have link : p.succ a = some m := Pool.succ_eq atA
  have avoid := S.not_mem_of_idle idle path hf.symm
  by_cases mem : m ∈ l.map Prod.fst
  · obtain ⟨front, ⟨a', w₀⟩, v₀, back, rfl, link'⟩ := path.split_before mem hm.symm
    obtain rfl := S.single _ _ _ link' link
    have behind := path.ne_of_mem
    have later := path.suffix
    cases later with
    | cons cell tail =>
        rw [atA] at cell
        cases cell
        cases tail with
        | cons cell' tail' =>
            rw [atM] at cell'
            cases cell'
            have apart := (Chain.cons atM tail').nodup
            simp only [List.map_cons, List.nodup_cons] at apart
            have nodup := path.nodup
            simp only [List.map_append, List.map_cons, List.mem_append, List.mem_cons,
              not_or] at avoid nodup mem ⊢
            have rest : Chain q (some f) ((f, v) :: back) := by
              refine .cons newF (tail'.frame fun i inside => other i ?_ ?_ ?_)
              · exact behind.2 i (List.mem_cons_of_mem _ inside)
              · rintro rfl
                exact avoid.2.2.2 inside
              · rintro rfl
                exact apart.1 inside
            refine ⟨front ++ (a', w) :: (f, v) :: back,
              path.relink (fun i inside => other i ?_ ?_ ?_) newA rest, ?_⟩
            · exact behind.1 i inside
            · rintro rfl
              exact avoid.1 inside
            · rintro rfl
              rw [List.nodup_append] at nodup
              exact nodup.2.2 _ inside _ (by simp) rfl
            · rw [List.nodup_append] at nodup
              have keepFront := unmoved m f fun inside => nodup.2.2 m inside m (by simp) rfl
              have keepBack := unmoved m f apart.1
              have ne : a' ≠ m := (behind.2 m (by simp)).symm
              simp only [List.map_append, List.map_cons, keepFront, keepBack, if_neg ne, if_true]
  · refine ⟨l, path.frame fun i inside => other i ?_ ?_ ?_, ?_⟩
    · rintro rfl
      exact mem (path.succ_mem inside link)
    · rintro rfl
      exact avoid inside
    · rintro rfl
      exact mem inside
    · exact (unmoved m f mem).symm

end Scatter

/-- The contents of `m`, a key away from its main position, move to the idle cell `f`.
The cell before `m` is linked to `f` then, and `m` is idle. -/
structure Moves (L : Labels α κ) (main : κ → Nat) (p q : Pool α) (k0 : κ) (a f m : Nat)
    (u v w : α) (nx : Option Nat) : Prop where
  table : Scatter L main p
  key : L.key v = some k0
  away : main k0 ≠ m
  idle : L.usedAt p f = false
  atA : p.cell a = some ⟨w, some m⟩
  atM : p.cell m = some ⟨v, nx⟩
  size : q.bound = p.bound
  newA : q.cell a = some ⟨w, some f⟩
  newF : q.cell f = some ⟨v, nx⟩
  newM : q.cell m = some ⟨u, none⟩
  fresh : L.used u = false
  other : ∀ i, i ≠ a → i ≠ f → i ≠ m → q.cell i = p.cell i

namespace Moves

variable {L : Labels α κ} {main : κ → Nat} {p q : Pool α} {k k0 : κ} {a f m i j : Nat}
  {u v w : α} {nx : Option Nat} (M : Moves L main p q k0 a f m u v w nx)

include M

/-! The cells before the move. -/

theorem link : p.succ a = some m := Pool.succ_eq M.atA

theorem succM : p.succ m = nx := Pool.succ_eq M.atM

theorem keyM : L.keyAt p m = some k0 := (Labels.keyAt_eq M.atM).trans M.key

theorem usedA : L.usedAt p a = true := (M.table.linked a m M.link).1

theorem f_ne_m : f ≠ m := by
  rintro rfl
  exact Labels.ne_key_of_idle M.idle k0 M.keyM

theorem f_ne_a : f ≠ a := by
  rintro rfl
  exact M.table.idle_not_linked M.idle m M.link

theorem a_ne_m : a ≠ m := by
  rintro rfl
  exact M.table.succ_ne a M.link

/-- A main position is a cell that a walk of the old table can start from: it is
in use, and what it holds is at home, so it is neither the idle cell nor the one
that is left. -/
theorem main_ne (held : L.keyAt p i = some k) : main k ≠ m ∧ main k ≠ f := by
  constructor
  · rintro rfl
    exact M.away (M.table.anchor i k k0 held M.keyM)
  · exact M.table.main_ne_idle held M.idle

/-! The cells after the move. -/

theorem succ (i : Nat) : q.succ i =
    if i = a then some f else if i = f then nx else if i = m then none else p.succ i := by
  split_ifs with ha hf hm
  · rw [ha, Pool.succ_eq M.newA]
  · rw [hf, Pool.succ_eq M.newF]
  · rw [hm, Pool.succ_eq M.newM]
  · simp only [Pool.succ, M.other i ha hf hm]

theorem keys (i : Nat) (k : κ) : L.keyAt q i = some k ↔
    i = f ∧ k = k0 ∨ i ≠ f ∧ i ≠ m ∧ L.keyAt p i = some k := by
  by_cases hf : i = f
  · rw [hf, Labels.keyAt_eq M.newF, M.key]
    simp [eq_comm]
  by_cases hm : i = m
  · have none : L.key u ≠ some k := fun held => by
      have fresh := M.fresh
      rw [L.used_of_key _ _ held] at fresh
      cases fresh
    rw [hm, Labels.keyAt_eq M.newM]
    simp [none, M.f_ne_m.symm]
  by_cases ha : i = a
  · rw [ha, Labels.keyAt_eq M.newA, Labels.keyAt_eq M.atA]
    simp [M.f_ne_a.symm, M.a_ne_m]
  · simp only [Labels.keyAt, M.other i ha hf hm]
    simp [hf, hm]

theorem formers (hf : i ≠ f) (hm : i ≠ m) (held : L.formerAt q i = some k) :
    L.formerAt p i = some k := by
  by_cases ha : i = a
  · rw [ha, Labels.formerAt_eq M.newA] at held
    rw [ha, Labels.formerAt_eq M.atA, held]
  · simpa only [Labels.formerAt, M.other i ha hf hm] using held

theorem used (held : L.usedAt p i = true) (hm : i ≠ m) : L.usedAt q i = true := by
  by_cases ha : i = a
  · rw [ha, Labels.usedAt_eq M.newA, ← M.usedA, Labels.usedAt_eq M.atA]
  · have hf : i ≠ f := by
      rintro rfl
      rw [M.idle] at held
      cases held
    rw [Labels.usedAt, M.other i ha hf hm]
    exact held

theorem usedF : L.usedAt q f = true := by
  rw [Labels.usedAt_eq M.newF]
  exact L.used_of_key _ _ M.key

theorem walk {h : Nat} {l : List (Nat × α)} (path : Chain p (some h) l) (hm : h ≠ m)
    (hf : h ≠ f) :
    ∃ l', Chain q (some h) l' ∧
      l'.map Prod.fst = (l.map Prod.fst).map fun i => if i = m then f else i :=
  M.table.walk_moved M.idle M.atA M.atM M.newA M.newF M.other path hm hf

/-! The parts of the invariant. -/

theorem allocated (below : i < q.bound) : q.cell i ≠ none := by
  rw [M.size] at below
  by_cases ha : i = a
  · simp [ha, M.newA]
  by_cases hf : i = f
  · simp [hf, M.newF]
  by_cases hm : i = m
  · simp [hm, M.newM]
  · rw [M.other i ha hf hm]
    exact M.table.allocated i below

theorem linked (linked : q.succ i = some j) : L.usedAt q i = true ∧ L.usedAt q j = true := by
  rw [M.succ] at linked
  split_ifs at linked with ha hf hm
  · cases linked
    exact ⟨ha ▸ M.used M.usedA M.a_ne_m, M.usedF⟩
  · rw [← M.succM] at linked
    refine ⟨hf ▸ M.usedF, M.used (M.table.linked m j linked).2 ?_⟩
    rintro rfl
    exact M.table.succ_ne _ linked
  · obtain ⟨first, second⟩ := M.table.linked i j linked
    refine ⟨M.used first hm, M.used second ?_⟩
    rintro rfl
    exact ha (M.table.single _ _ _ linked M.link)

theorem single {n : Nat} (first : q.succ i = some n) (second : q.succ j = some n) : i = j := by
  rw [M.succ] at first second
  have apart := M.table.not_linked_idle M.idle
  have merge := M.table.single
  have link := M.link
  have succM := M.succM
  split_ifs at first second <;> grind

theorem ends (below : i < q.bound) : ∃ l, Chain q (some i) l := by
  rw [M.size] at below
  by_cases hm : i = m
  · rw [hm]
    exact ⟨_, .cons M.newM .nil⟩
  by_cases hf : i = f
  · -- from `f` on the chain is what it was from `m` on
    obtain ⟨l, path⟩ := M.table.ends m (Pool.lt_bound M.atM)
    rw [hf]
    cases path with
    | cons cell tail =>
        rw [M.atM] at cell
        cases cell
        cases nx with
        | none => exact ⟨_, .cons M.newF .nil⟩
        | some h =>
            have apart : h ≠ m := by
              rintro rfl
              exact M.table.succ_ne _ M.succM
            have apart' : h ≠ f := by
              rintro rfl
              exact M.table.not_linked_idle M.idle m M.succM
            obtain ⟨l', path', _⟩ := M.walk tail apart apart'
            exact ⟨_, .cons M.newF path'⟩
  · obtain ⟨l, path⟩ := M.table.ends i below
    obtain ⟨l', path', _⟩ := M.walk path hm hf
    exact ⟨l', path'⟩

theorem reach (held : L.keyAt q i = some k) :
    ∃ l, Chain q (some (main k)) l ∧ i ∈ l.map Prod.fst := by
  rcases (M.keys i k).mp held with ⟨rfl, rfl⟩ | ⟨hf, hm, old⟩
  · obtain ⟨l, path, mem⟩ := M.table.reach m k M.keyM
    obtain ⟨l', path', places⟩ := M.walk path M.away (M.main_ne M.keyM).2
    exact ⟨l', path', places ▸ List.mem_map.mpr ⟨m, mem, if_pos rfl⟩⟩
  · obtain ⟨l, path, mem⟩ := M.table.reach i k old
    obtain ⟨apart, apart'⟩ := M.main_ne old
    obtain ⟨l', path', places⟩ := M.walk path apart apart'
    exact ⟨l', path', places ▸ List.mem_map.mpr ⟨i, mem, if_neg hm⟩⟩

theorem anchor {k' : κ} (held : L.keyAt q i = some k) (held' : L.keyAt q (main k) = some k') :
    main k' = main k := by
  have old' : L.keyAt p (main k) = some k' := by
    rcases (M.keys _ k').mp held' with ⟨same, -⟩ | ⟨-, -, old'⟩
    · rcases (M.keys i k).mp held with ⟨-, rfl⟩ | ⟨-, -, old⟩
      · exact absurd same (M.main_ne M.keyM).2
      · exact absurd same (M.main_ne old).2
    · exact old'
  rcases (M.keys i k).mp held with ⟨-, rfl⟩ | ⟨-, -, old⟩
  · exact M.table.anchor m k k' M.keyM old'
  · exact M.table.anchor i k k' old old'

theorem distinct (held : L.keyAt q i = some k) (held' : L.keyAt q j = some k) : i = j := by
  rcases (M.keys i k).mp held with ⟨rfl, rfl⟩ | ⟨-, hm, old⟩
  · rcases (M.keys j k).mp held' with ⟨rfl, -⟩ | ⟨-, hm', old'⟩
    · rfl
    · exact absurd (M.table.distinct j m k old' M.keyM) hm'
  · rcases (M.keys j k).mp held' with ⟨rfl, rfl⟩ | ⟨-, -, old'⟩
    · exact absurd (M.table.distinct i m k old M.keyM) hm
    · exact M.table.distinct i j k old old'

/-- The cell a key was in before the move, as the only one that becomes its
cell. -/
theorem origin (held : L.keyAt q i = some k) :
    ∃ i₀, L.keyAt p i₀ = some k ∧ (∀ j, j ≠ f → (if j = m then f else j) = i → j = i₀) ∧
      main k ≠ m ∧ main k ≠ f := by
  rcases (M.keys i k).mp held with ⟨rfl, rfl⟩ | ⟨hf, hm, old⟩
  · refine ⟨m, M.keyM, fun j hj same => ?_, M.main_ne M.keyM⟩
    by_contra ne
    rw [if_neg ne] at same
    exact hj same
  · refine ⟨i, old, fun j _ same => ?_, M.main_ne old⟩
    split_ifs at same with hj
    · exact absurd same.symm hf
    · exact same

theorem first (held : L.keyAt q i = some k) {l' : List (Nat × α)}
    (path' : Chain q (some (main k)) l') {front' back' : List Nat}
    (parts : l'.map Prod.fst = front' ++ i :: back') {b : Nat} (mem : b ∈ front') :
    L.formerAt q b ≠ some k := by
  intro former
  obtain ⟨i₀, held₀, moved, apart, apart'⟩ := M.origin held
  -- the walk to the key before the move, split at its cell
  obtain ⟨l, path, _⟩ := M.table.reach i₀ k held₀
  obtain ⟨l₁, path₁, places⟩ := M.walk path apart apart'
  rw [path'.unique path₁, places, List.map_eq_append_iff] at parts
  obtain ⟨front, rest, split, rfl, tail⟩ := parts
  obtain ⟨j, back, rfl, here, rfl⟩ := List.map_eq_cons_iff.mp tail
  have avoid := M.table.not_mem_of_idle M.idle path apart'.symm
  rw [split] at avoid
  have hj : j ≠ f := by
    rintro rfl
    exact avoid (by simp)
  obtain rfl := moved j hj here
  obtain ⟨c, memC, rfl⟩ := List.mem_map.mp mem
  have hc : c ≠ f := by
    rintro rfl
    exact avoid (List.mem_append_left _ memC)
  refine M.table.first j k held₀ l path front back split c memC ?_
  split_ifs at former with hm
  · rw [hm]
    rw [Labels.formerAt_eq M.newF, ← Labels.formerAt_eq M.atM] at former
    exact former
  · exact M.formers hc hm former

/-- The table after the move. -/
theorem scatter : Scatter L main q where
  allocated := fun _ => M.allocated
  main_lt := by rw [M.size]; exact M.table.main_lt
  linked := fun _ _ => M.linked
  single := fun _ _ _ => M.single
  ends := fun _ => M.ends
  reach := fun _ _ => M.reach
  anchor := fun _ _ _ => M.anchor
  distinct := fun _ _ _ => M.distinct
  first := fun _ _ held _ path _ _ parts _ => M.first held path parts

end Moves

namespace Scatter

variable {L : Labels α κ} {main : κ → Nat} {p q : Pool α} {k k0 : κ} {a f m : Nat}

/-- A key whose main position holds a key that is not in its own gets it; the
other key moves to the idle cell `f`. -/
theorem displace (S : Scatter L main p) {u v v' w : α} {nx : Option Nat}
    (absent : ∀ i, L.keyAt p i ≠ some k) (key : L.key v = some k0) (away : main k0 ≠ main k)
    (atF : p.cell f = some ⟨u, none⟩) (idle : L.used u = false)
    (atA : p.cell a = some ⟨w, some (main k)⟩) (atM : p.cell (main k) = some ⟨v, nx⟩)
    (size : q.bound = p.bound) (newA : q.cell a = some ⟨w, some f⟩)
    (newF : q.cell f = some ⟨v, nx⟩) (newM : q.cell (main k) = some ⟨v', none⟩)
    (key' : L.key v' = some k)
    (other : ∀ i, i ≠ a → i ≠ f → i ≠ main k → q.cell i = p.cell i) : Scatter L main q := by
  have keyM : L.keyAt p (main k) = some k0 := (Labels.keyAt_eq atM).trans key
  have idleF : L.usedAt p f = false := (Labels.usedAt_eq atF).trans idle
  have am : a ≠ main k := by
    rintro rfl
    exact S.succ_ne _ (Pool.succ_eq atA)
  have fm : f ≠ main k := by
    rintro rfl
    exact Labels.ne_key_of_idle idleF k0 keyM
  -- between the two writes, the main position is idle
  let r := q.put (main k) ⟨u, none⟩
  have atR : r.cell (main k) = some ⟨u, none⟩ := Pool.put_cell_self newM _
  have elsewhere : ∀ i, i ≠ main k → r.cell i = q.cell i := fun i ne => q.put_cell_of_ne ne _
  have moved : Scatter L main r := by
    have moves : Moves L main p r k0 a f (main k) u v w nx :=
      { table := S, key, away, idle := idleF, atA, atM
        size := (q.put_bound _ _).trans size
        newA := (elsewhere a am).trans newA
        newF := (elsewhere f fm).trans newF
        newM := atR
        fresh := idle
        other := fun i ha hf hm => (elsewhere i hm).trans (other i ha hf hm) }
    exact moves.scatter
  refine moved.relabel (q.put_bound _ _).symm ?_ ?_ ?_ ?_ ?_
  · intro i below
    by_cases hm : i = main k
    · simp [hm, newM]
    · rw [← elsewhere i hm]
      exact moved.allocated i below
  · intro i
    by_cases hm : i = main k
    · rw [hm, Pool.succ_eq newM, Pool.succ_eq atR]
    · simp only [Pool.succ, elsewhere i hm]
  · intro i used
    by_cases hm : i = main k
    · rw [hm, Labels.usedAt_eq newM]
      exact L.used_of_key _ _ key'
    · simpa only [Labels.usedAt, elsewhere i hm] using used
  · intro i k' held
    by_cases hm : i = main k
    · right
      rw [hm, Labels.keyAt_eq newM, key'] at held
      cases held
      refine ⟨hm, fun j held' => ?_⟩
      by_cases hj : j = main k
      · rw [hj, Labels.keyAt_eq atR] at held'
        rw [L.used_of_key _ _ held'] at idle
        cases idle
      · simp only [Labels.keyAt, elsewhere j hj] at held'
        by_cases ha : j = a
        · rw [ha, newA] at held'
          exact absent a ((Labels.keyAt_eq atA).trans held')
        by_cases hf : j = f
        · rw [hf, newF] at held'
          exact absent _ ((Labels.keyAt_eq atM).trans held')
        · rw [other j ha hf hj] at held'
          exact absent j held'
    · left
      simpa only [Labels.keyAt, elsewhere i hm] using held
  · intro i k' former
    left
    by_cases hm : i = main k
    · rw [hm, Labels.formerAt_eq newM, L.former_of_key _ _ key'] at former
      cases former
    · simpa only [Labels.formerAt, elsewhere i hm] using former

/-- Leaving out a place that does not occur changes nothing. -/
theorem without {f : Nat} {places : List Nat} (outside : f ∉ places) :
    places.filter (· ≠ f) = places := by
  rw [List.filter_eq_self]
  intro i mem
  rw [decide_eq_true_eq]
  rintro rfl
  exact outside mem

/-- The chains after the idle cell `f` was linked in behind `m`. -/
theorem walk_appended (S : Scatter L main p) {v v' : α} {nx : Option Nat}
    (idle : L.usedAt p f = false) (atM : p.cell m = some ⟨v, nx⟩)
    (newM : q.cell m = some ⟨v, some f⟩) (newF : q.cell f = some ⟨v', nx⟩)
    (other : ∀ i, i ≠ f → i ≠ m → q.cell i = p.cell i) {h : Nat} {l : List (Nat × α)}
    (path : Chain p (some h) l) (hf : h ≠ f) :
    ∃ l', Chain q (some h) l' ∧ (l'.map Prod.fst).filter (· ≠ f) = l.map Prod.fst ∧
      (m ∈ l.map Prod.fst → f ∈ l'.map Prod.fst) := by
  have avoid := S.not_mem_of_idle idle path hf.symm
  by_cases mem : m ∈ l.map Prod.fst
  · obtain ⟨⟨m, v₀⟩, inside, rfl⟩ := List.mem_map.mp mem
    obtain ⟨front, back, rfl⟩ := List.append_of_mem inside
    have apart := path.ne_of_mem
    have later := path.suffix
    cases later with
    | cons cell tail =>
        simp only at atM newM other
        rw [atM] at cell
        cases cell
        simp only [List.map_append, List.map_cons, List.mem_append, List.mem_cons,
          not_or] at avoid ⊢
        have rest : Chain q (some f) ((f, v') :: back) := by
          refine .cons newF (tail.frame fun i inside => other i ?_ (apart.2 i inside))
          rintro rfl
          exact avoid.2.2 inside
        refine ⟨front ++ (m, v) :: (f, v') :: back,
          path.relink (fun i inside => other i ?_ (apart.1 i inside)) newM rest, ?_, ?_⟩
        · rintro rfl
          exact avoid.1 inside
        · have keepFront := without avoid.1
          have keepBack := without avoid.2.2
          have ne : m ≠ f := Ne.symm avoid.2.1
          have fromM : (m :: f :: back.map Prod.fst).filter (· ≠ f) = m :: back.map Prod.fst := by
            rw [List.filter_cons_of_pos (by simpa using ne), List.filter_cons_of_neg (by simp),
              keepBack]
          simp only [List.map_append, List.map_cons, List.filter_append, keepFront, fromM]
        · simp
  · refine ⟨l, path.frame fun i inside => other i ?_ ?_, without avoid,
      fun inside => absurd inside mem⟩
    · rintro rfl
      exact avoid inside
    · rintro rfl
      exact mem inside

end Scatter

/-- A new key, whose main position `m` holds a key that belongs there, goes to the idle
cell `f`, linked in behind `m`. -/
structure Appends (L : Labels α κ) (main : κ → Nat) (p q : Pool α) (k k0 : κ) (f : Nat)
    (u v v' : α) (nx : Option Nat) : Prop where
  table : Scatter L main p
  absent : ∀ i, L.keyAt p i ≠ some k
  key : L.key v = some k0
  home : main k0 = main k
  atF : p.cell f = some ⟨u, none⟩
  fresh : L.used u = false
  atM : p.cell (main k) = some ⟨v, nx⟩
  size : q.bound = p.bound
  newM : q.cell (main k) = some ⟨v, some f⟩
  newF : q.cell f = some ⟨v', nx⟩
  key' : L.key v' = some k
  other : ∀ i, i ≠ f → i ≠ main k → q.cell i = p.cell i

namespace Appends

variable {L : Labels α κ} {main : κ → Nat} {p q : Pool α} {k k' k0 : κ} {f i j : Nat}
  {u v v' : α} {nx : Option Nat} (A : Appends L main p q k k0 f u v v' nx)

include A

/-! The cells before the key is put in. -/

theorem keyM : L.keyAt p (main k) = some k0 := (Labels.keyAt_eq A.atM).trans A.key

theorem usedM : L.usedAt p (main k) = true := Labels.usedAt_of_key A.keyM

theorem idle : L.usedAt p f = false := (Labels.usedAt_eq A.atF).trans A.fresh

theorem succM : p.succ (main k) = nx := Pool.succ_eq A.atM

theorem f_ne_main : f ≠ main k := by
  rintro rfl
  exact Labels.ne_key_of_idle A.idle k0 A.keyM

/-! The cells afterwards. -/

theorem succ (i : Nat) : q.succ i =
    if i = f then nx else if i = main k then some f else p.succ i := by
  split_ifs with hf hm
  · rw [hf, Pool.succ_eq A.newF]
  · rw [hm, Pool.succ_eq A.newM]
  · simp only [Pool.succ, A.other i hf hm]

theorem keys (i : Nat) (k' : κ) : L.keyAt q i = some k' ↔
    i = f ∧ k' = k ∨ i ≠ f ∧ L.keyAt p i = some k' := by
  by_cases hf : i = f
  · rw [hf, Labels.keyAt_eq A.newF, A.key']
    simp [eq_comm]
  by_cases hm : i = main k
  · rw [hm, Labels.keyAt_eq A.newM, Labels.keyAt_eq A.atM]
    simp [A.f_ne_main.symm]
  · simp only [Labels.keyAt, A.other i hf hm]
    simp [hf]

theorem usedF : L.usedAt q f = true := by
  rw [Labels.usedAt_eq A.newF]
  exact L.used_of_key _ _ A.key'

theorem used (held : L.usedAt p i = true) : L.usedAt q i = true := by
  by_cases hf : i = f
  · exact hf ▸ A.usedF
  by_cases hm : i = main k
  · rw [hm, Labels.usedAt_eq A.newM, ← A.usedM, Labels.usedAt_eq A.atM]
  · rw [Labels.usedAt, A.other i hf hm]
    exact held

theorem walk {h : Nat} {l : List (Nat × α)} (path : Chain p (some h) l) (hf : h ≠ f) :
    ∃ l', Chain q (some h) l' ∧ (l'.map Prod.fst).filter (· ≠ f) = l.map Prod.fst ∧
      (main k ∈ l.map Prod.fst → f ∈ l'.map Prod.fst) :=
  A.table.walk_appended A.idle A.atM A.newM A.newF A.other path hf

/-! The parts of the invariant. -/

theorem allocated (below : i < q.bound) : q.cell i ≠ none := by
  rw [A.size] at below
  by_cases hf : i = f
  · simp [hf, A.newF]
  by_cases hm : i = main k
  · simp [hm, A.newM]
  · rw [A.other i hf hm]
    exact A.table.allocated i below

theorem linked (linked : q.succ i = some j) : L.usedAt q i = true ∧ L.usedAt q j = true := by
  rw [A.succ] at linked
  split_ifs at linked with hf hm
  · rw [← A.succM] at linked
    exact ⟨hf ▸ A.usedF, A.used (A.table.linked _ j linked).2⟩
  · cases linked
    exact ⟨hm ▸ A.used A.usedM, A.usedF⟩
  · obtain ⟨first, second⟩ := A.table.linked i j linked
    exact ⟨A.used first, A.used second⟩

theorem single {n : Nat} (first : q.succ i = some n) (second : q.succ j = some n) : i = j := by
  rw [A.succ] at first second
  have apart := A.table.not_linked_idle A.idle
  have merge := A.table.single
  have succM := A.succM
  split_ifs at first second <;> grind

theorem ends (below : i < q.bound) : ∃ l, Chain q (some i) l := by
  rw [A.size] at below
  by_cases hf : i = f
  · -- behind `f` comes what came behind the main position
    obtain ⟨l, path⟩ := A.table.ends (main k) (A.table.main_lt k)
    rw [hf]
    cases path with
    | cons cell tail =>
        rw [A.atM] at cell
        cases cell
        cases nx with
        | none => exact ⟨_, .cons A.newF .nil⟩
        | some h =>
            have apart : h ≠ f := by
              rintro rfl
              exact A.table.not_linked_idle A.idle _ A.succM
            obtain ⟨l', path', _⟩ := A.walk tail apart
            exact ⟨_, .cons A.newF path'⟩
  · obtain ⟨l, path⟩ := A.table.ends i below
    obtain ⟨l', path', _⟩ := A.walk path hf
    exact ⟨l', path'⟩

theorem reach (held : L.keyAt q i = some k') :
    ∃ l, Chain q (some (main k')) l ∧ i ∈ l.map Prod.fst := by
  rcases (A.keys i k').mp held with ⟨rfl, rfl⟩ | ⟨-, old⟩
  · obtain ⟨l, path⟩ := A.table.ends _ (A.table.main_lt k')
    obtain ⟨l', path', -, behind⟩ := A.walk path A.f_ne_main.symm
    refine ⟨l', path', behind ?_⟩
    cases path
    simp
  · obtain ⟨l, path, mem⟩ := A.table.reach i k' old
    obtain ⟨l', path', kept, -⟩ := A.walk path (A.table.main_ne_idle old A.idle)
    exact ⟨l', path', List.mem_of_mem_filter (kept ▸ mem)⟩

theorem anchor {k₁ k₂ : κ} (held : L.keyAt q i = some k₁)
    (held' : L.keyAt q (main k₁) = some k₂) : main k₂ = main k₁ := by
  rcases (A.keys i k₁).mp held with ⟨rfl, rfl⟩ | ⟨-, old⟩
  · rcases (A.keys _ k₂).mp held' with ⟨same, -⟩ | ⟨-, old'⟩
    · exact absurd same A.f_ne_main.symm
    · rw [A.keyM] at old'
      cases old'
      exact A.home
  · rcases (A.keys _ k₂).mp held' with ⟨same, -⟩ | ⟨-, old'⟩
    · exact absurd same (A.table.main_ne_idle old A.idle)
    · exact A.table.anchor i k₁ k₂ old old'

theorem distinct (held : L.keyAt q i = some k') (held' : L.keyAt q j = some k') : i = j := by
  rcases (A.keys i k').mp held with ⟨rfl, rfl⟩ | ⟨-, old⟩
  · rcases (A.keys j k').mp held' with ⟨rfl, -⟩ | ⟨-, old'⟩
    · rfl
    · exact absurd old' (A.absent j)
  · rcases (A.keys j k').mp held' with ⟨rfl, rfl⟩ | ⟨-, old'⟩
    · exact absurd old (A.absent i)
    · exact A.table.distinct i j k' old old'

/-- Only the main position comes before the new key, and the new key was not
taken out of it. -/
theorem first_new {l' : List (Nat × α)} (path' : Chain q (some (main k)) l')
    {front' back' : List Nat} (parts : l'.map Prod.fst = front' ++ f :: back') {b : Nat}
    (mem : b ∈ front') : L.formerAt q b ≠ some k := by
  intro former
  have nodup := path'.nodup
  rw [parts] at nodup
  cases path' with
  | cons cell tail =>
      rw [A.newM] at cell
      cases cell
      cases tail with
      | cons cell' tail' =>
          rw [A.newF] at cell'
          cases cell'
          have beginning : front' = [main k] := by
            rcases front' with _ | ⟨c, _ | ⟨c', front'⟩⟩
            · cases mem
            · simp only [List.map_cons, List.cons_append, List.cons.injEq] at parts
              rw [parts.1]
            · simp only [List.map_cons, List.cons_append, List.cons.injEq] at parts
              simp [← parts.2.1] at nodup
          rw [beginning, List.mem_singleton] at mem
          rw [mem, Labels.formerAt_eq A.newM, L.former_of_key _ _ A.key] at former
          cases former

theorem first (held : L.keyAt q i = some k') {l' : List (Nat × α)}
    (path' : Chain q (some (main k')) l') {front' back' : List Nat}
    (parts : l'.map Prod.fst = front' ++ i :: back') {b : Nat} (mem : b ∈ front') :
    L.formerAt q b ≠ some k' := by
  rcases (A.keys i k').mp held with ⟨rfl, rfl⟩ | ⟨hf, old⟩
  · exact A.first_new path' parts mem
  intro former
  obtain ⟨l, path, _⟩ := A.table.reach i k' old
  obtain ⟨l₁, path₁, kept, -⟩ := A.walk path (A.table.main_ne_idle old A.idle)
  rw [← path'.unique path₁, parts, List.filter_append,
    List.filter_cons_of_pos (by simpa using hf)] at kept
  have hb : b ≠ f := by
    rintro rfl
    rw [Labels.formerAt_eq A.newF, L.former_of_key _ _ A.key'] at former
    cases former
  refine A.table.first i k' old l path _ _ kept.symm b
    (List.mem_filter.mpr ⟨mem, by simpa using hb⟩) ?_
  by_cases hm : b = main k
  · rw [hm, Labels.formerAt_eq A.newM, ← Labels.formerAt_eq A.atM] at former
    rw [hm]
    exact former
  · simpa only [Labels.formerAt, A.other b hb hm] using former

/-- The table with the new key. -/
theorem scatter : Scatter L main q where
  allocated := fun _ => A.allocated
  main_lt := by rw [A.size]; exact A.table.main_lt
  linked := fun _ _ => A.linked
  single := fun _ _ _ => A.single
  ends := fun _ => A.ends
  reach := fun _ _ => A.reach
  anchor := fun _ _ _ => A.anchor
  distinct := fun _ _ _ => A.distinct
  first := fun _ _ held _ path _ _ parts _ => A.first held path parts

end Appends

end Program
