import Mathlib.Data.Nat.Size
import ProfiLua.Table.Insert

/-!
Growing a table (`rehash`, `resize`).

When there is no free place for a new key, all keys are counted by the slice
`(2^(lg-1), 2^lg]` their index lies in, the array part gets the largest size of
which more than half is in use, and every entry is inserted again. The counts
are exact (`numusearray_spec`, `numusehash_spec`), and so is the choice
(`computesizes_spec`).
-/

namespace ProfiLua

open Program HashTable

/-! ### Logarithms -/

/-- `log_2`. -/
def log2Table : List Nat :=
  [0, 1, 2, 2] ++ List.replicate 4 3 ++ List.replicate 8 4 ++ List.replicate 16 5 ++
    List.replicate 32 6 ++ List.replicate 64 7 ++ List.replicate 128 8

/-- `while (x >= 256) { l += 8; x >>= 8; } return l + log_2[x];` -/
def luaOLog2From (l : Int) (x : Nat) : Int :=
  if 256 ≤ x then luaOLog2From (l + 8) (x >>> 8) else l + log2Table.getD x 0
termination_by x
decreasing_by
  rw [Nat.shiftRight_eq_div_pow]
  omega

def luaOLog2 (x : Nat) : Int := luaOLog2From (-1) x

def ceillog2 (x : Nat) : Nat := (luaOLog2 (x - 1) + 1).toNat

/-- The loop and the table give the number of binary digits. -/
theorem luaOLog2From_eq (l : Int) (x : Nat) : luaOLog2From l x = l + x.size := by
  induction l, x using luaOLog2From.induct with
  | case1 l x big ih =>
      rw [luaOLog2From, if_pos big, ih]
      have size : x.size = (x >>> 8).size + 8 := by
        apply le_antisymm
        · rw [Nat.size_le, pow_add, ← Nat.div_lt_iff_lt_mul (by decide)]
          rw [← Nat.shiftRight_eq_div_pow]
          exact Nat.lt_size_self _
        · by_contra small
          have below : x.size ≤ (x >>> 8).size + 7 := by omega
          have pos : 0 < x >>> 8 := by
            rw [Nat.shiftRight_eq_div_pow]
            omega
          have top : 2 ^ ((x >>> 8).size - 1) ≤ x >>> 8 :=
            Nat.lt_size.mp (Nat.sub_lt (Nat.size_pos.mpr pos) (by decide))
          have sizePos := Nat.size_pos.mpr pos
          rw [Nat.size_le] at below
          rw [Nat.shiftRight_eq_div_pow, Nat.le_div_iff_mul_le (by decide), ← pow_add] at top
          have exponent : (x / 2 ^ 8).size - 1 + 8 = (x >>> 8).size + 7 := by
            rw [← Nat.shiftRight_eq_div_pow]
            omega
          rw [exponent] at top
          omega
      rw [size]
      push_cast
      omega
  | case2 l x small =>
      rw [luaOLog2From, if_neg small]
      have entries : ∀ y < 256, log2Table.getD y 0 = y.size := by decide +kernel
      rw [entries x (by omega)]

/-- The slice an index lies in: slice `i` ends at `2 ^ i`. -/
theorem ceillog2_le {k i : Nat} (pos : 0 < k) : ceillog2 k ≤ i ↔ k ≤ 2 ^ i := by
  have size : ceillog2 k = (k - 1).size := by
    rw [ceillog2, luaOLog2, luaOLog2From_eq]
    omega
  rw [size, Nat.size_le]
  omega

/-! ### Counting -/

/-- `computesizes`, from slice `i` on; `a` elements have been counted, and `na`
of them are below `n`, the best size so far. -/
def computesizesFrom (nums : Nat → Nat) (narray i a na n : Nat) : Nat × Nat :=
  if 2 ^ i / 2 < narray then
    let a' := a + nums i
    let better := 0 < nums i ∧ 2 ^ i / 2 < a'
    let na := if better then a' else na
    let n := if better then 2 ^ i else n
    if a' = narray then (na, n) else computesizesFrom nums narray (i + 1) a' na n
  else (na, n)
termination_by narray - 2 ^ i / 2
decreasing_by
  have pos := Nat.two_pow_pos i
  rw [pow_succ]
  omega

/-- How many elements go to the array part, and its size. -/
def computesizes (nums : Nat → Nat) (narray : Nat) : Nat × Nat :=
  computesizesFrom nums narray 0 0 0 0

section Counting

variable (H : Hashes) (t : HashTable)

/-- Whether a key is an appropriate array index. -/
def countint (key : TValue) (nums : Nat → Nat) : Nat × (Nat → Nat) :=
  let k := arrayindex H key
  if 0 < k ∧ k ≤ MAXASIZE then
    (1, Function.update nums (ceillog2 k.toNat) (nums (ceillog2 k.toNat) + 1))
  else (0, nums)

/-- The slices of `numusearray` from `lg` on, `i` being the first index that has
not been counted. -/
def numusearrayFrom : Nat → Nat → Nat → (Nat → Nat) → Nat → Nat × (Nat → Nat)
  | 0, _, _, nums, ause => (ause, nums)
  | rounds + 1, lg, i, nums, ause =>
      let lim := if 2 ^ lg > t.sizearray then t.sizearray else 2 ^ lg
      if 2 ^ lg > t.sizearray ∧ i > lim then (ause, nums)
      else
        let lc := (List.range' i (lim + 1 - i)).countP fun i => t.array.getD (i - 1) .nil ≠ .nil
        numusearrayFrom rounds (lg + 1) (max i (lim + 1))
          (Function.update nums lg (nums lg + lc)) (ause + lc)

def numusearray (nums : Nat → Nat) : Nat × (Nat → Nat) :=
  numusearrayFrom t (MAXBITS + 1) 0 1 nums 0

/-- The nodes below `i`, the last one first: how many have a value, how many of
these an array index. -/
def numusehashFrom : Nat → (Nat → Nat) → Nat → Nat → Nat × Nat × (Nat → Nat)
  | 0, nums, totaluse, ause => (totaluse, ause, nums)
  | i + 1, nums, totaluse, ause =>
      match t.node.cell i with
      | some ⟨⟨.tvk k, v⟩, _⟩ =>
          if v ≠ .nil then
            let (c, nums) := countint H k nums
            numusehashFrom i nums (totaluse + 1) (ause + c)
          else numusehashFrom i nums totaluse ause
      | _ => numusehashFrom i nums totaluse ause

def numusehash (nums : Nat → Nat) : Nat × Nat × (Nat → Nat) :=
  numusehashFrom H t t.sizenode nums 0 0

end Counting

/-! ### What is counted -/

/-- How many indices lie in each slice. -/
def tally (ks : List Nat) : Nat → Nat := fun lg => ks.countP fun k => ceillog2 k = lg

theorem tally_perm {ks ks' : List Nat} (perm : ks.Perm ks') : tally ks = tally ks' :=
  funext fun _ => perm.countP_eq _

/-- Counting the indices of one slice adds them to its count. -/
theorem tally_update (ks : List Nat) (lg : Nat) {xs : List Nat}
    (slice : ∀ x ∈ xs, ceillog2 x = lg) :
    Function.update (tally ks) lg (tally ks lg + xs.length) = tally (xs ++ ks) := by
  funext j
  have counted : xs.countP (fun k => ceillog2 k = j) = if j = lg then xs.length else 0 := by
    split_ifs with same
    · rw [List.countP_eq_length]
      intro x mem
      simp [slice x mem, same]
    · rw [List.countP_eq_zero]
      intro x mem
      simp [slice x mem, Ne.symm same]
  by_cases same : j = lg
  · subst same
    simp [tally, counted, Nat.add_comm]
  · simp [tally, counted, same]

/-- The index of a key that is counted for the array part. -/
def candidate (H : Hashes) (key : TValue) : Option Nat :=
  if 0 < arrayindex H key ∧ arrayindex H key ≤ MAXASIZE then some (arrayindex H key).toNat
  else none

section Counting

variable {H : Hashes} {t : HashTable}

/-- `countint` counts the index of a key, if it has one, in its slice. -/
theorem countint_tally (key : TValue) (ks : List Nat) :
    countint H key (tally ks) =
      ((candidate H key).toList.length, tally ((candidate H key).toList ++ ks)) := by
  simp only [countint, candidate]
  split_ifs with appropriate
  · rw [Option.toList_some, ← tally_update ks (ceillog2 (arrayindex H key).toNat) (by simp)]
    rfl
  · rfl

/-- The indices from `i` on whose values in the array part are not nil. -/
def usedIndices (t : HashTable) (i : Nat) : List Nat :=
  (List.range' i (t.sizearray + 1 - i)).filter fun i => t.array.getD (i - 1) .nil ≠ .nil

/-- From slice `lg` on, the rest of the array part is counted. Each round begins
with the first index of its slice, as long as there are indices left. -/
theorem numusearrayFrom_eq (small : t.sizearray ≤ MAXASIZE) (ks : List Nat)
    {rounds lg i : Nat} (ause : Nat) (last : rounds + lg = MAXBITS + 1) (pos : 1 ≤ i)
    (inside : i ≤ t.sizearray → i = 2 ^ lg / 2 + 1) :
    numusearrayFrom t rounds lg i (tally ks) ause =
      (ause + (usedIndices t i).length, tally (usedIndices t i ++ ks)) := by
  induction rounds generalizing lg i ks ause with
  | zero =>
      have none : t.sizearray + 1 - i = 0 := by
        by_contra more
        have start := inside (by omega)
        rw [show lg = MAXBITS + 1 by omega, pow_succ] at start
        simp only [MAXASIZE] at small
        omega
      simp [numusearrayFrom, usedIndices, none]
  | succ rounds ih =>
      simp only [numusearrayFrom]
      set lim := if 2 ^ lg > t.sizearray then t.sizearray else 2 ^ lg with limEq
      have limLe : lim ≤ t.sizearray ∧ lim ≤ 2 ^ lg ∧ (lim = t.sizearray ∨ lim = 2 ^ lg) := by
        rw [limEq]
        split_ifs with above
        · exact ⟨le_refl _, above.le, .inl rfl⟩
        · exact ⟨by omega, le_refl _, .inr rfl⟩
      by_cases stop : 2 ^ lg > t.sizearray ∧ i > lim
      · have none : t.sizearray + 1 - i = 0 := by
          rw [if_pos stop.1] at limEq
          omega
        rw [if_pos stop]
        simp [usedIndices, none]
      · rw [if_neg stop, List.countP_eq_length_filter]
        set slice := (List.range' i (lim + 1 - i)).filter
          fun i => t.array.getD (i - 1) .nil ≠ .nil with sliceEq
        have parts : usedIndices t i = slice ++ usedIndices t (max i (lim + 1)) := by
          have range : List.range' i (t.sizearray + 1 - i) = List.range' i (lim + 1 - i) ++
              List.range' (max i (lim + 1)) (t.sizearray + 1 - max i (lim + 1)) := by
            by_cases early : i ≤ lim + 1
            · rw [max_eq_right early]
              have start : lim + 1 = i + 1 * (lim + 1 - i) := by omega
              have size : t.sizearray + 1 - i =
                  (lim + 1 - i) + (t.sizearray + 1 - (lim + 1)) := by omega
              rw [size, ← List.range'_append, ← start]
            · have none : lim + 1 - i = 0 := by omega
              rw [max_eq_left (by omega), none]
              rfl
          rw [usedIndices, range, List.filter_append]
          rfl
        -- it begins behind the last power of two, so all of it is one slice
        have inSlice : ∀ x ∈ slice, ceillog2 x = lg := by
          intro x mem
          have bounds := List.mem_range'_1.mp (List.mem_of_mem_filter mem)
          have start := inside (by omega)
          apply le_antisymm
          · rw [ceillog2_le (by omega)]
            omega
          · by_contra lower
            have pred : ceillog2 x ≤ lg - 1 := by omega
            rw [ceillog2_le (by omega)] at pred
            obtain ⟨m, rfl⟩ : ∃ m, lg = m + 1 := ⟨lg - 1, by omega⟩
            rw [pow_succ] at start
            simp only [Nat.add_sub_cancel] at pred
            omega
        rw [tally_update ks lg inSlice, ih, parts]
        · rw [List.length_append, Nat.add_assoc]
          refine Prod.ext rfl (tally_perm ?_)
          rw [List.append_assoc]
          exact List.perm_append_comm_assoc _ _ _
        · omega
        · omega
        · intro more
          rw [pow_succ]
          omega

/-- `numusearray` counts what is used of the array part. -/
theorem numusearray_spec (small : t.sizearray ≤ MAXASIZE) :
    numusearray t (tally []) = ((usedIndices t 1).length, tally (usedIndices t 1)) := by
  have last : MAXBITS + 1 + 0 = MAXBITS + 1 := rfl
  have counted := numusearrayFrom_eq small [] 0 last (le_refl 1) fun _ => rfl
  rw [numusearray, counted]
  simp

end Counting

/-- The entries of the nodes below `i` that have a value, the last one first. -/
def nodeEntries (node : Pool NodeEntry) : Nat → List (TValue × TValue)
  | 0 => []
  | i + 1 =>
      match node.cell i with
      | some ⟨⟨.tvk k, v⟩, _⟩ =>
          if v ≠ .nil then (k, v) :: nodeEntries node i else nodeEntries node i
      | _ => nodeEntries node i

/-- The array indices among some keys. -/
def candidates (H : Hashes) (keys : List TValue) : List Nat := keys.filterMap (candidate H)

theorem candidates_cons (H : Hashes) (k : TValue) (keys : List TValue) :
    candidates H (k :: keys) = (candidate H k).toList ++ candidates H keys := by
  cases found : candidate H k <;> simp [candidates, found]

/-- From node `i` down, the entries with a value are counted, and their array
indices in their slices. -/
theorem numusehashFrom_eq {H : Hashes} {t : HashTable} (i : Nat) (ks : List Nat)
    (totaluse ause : Nat) :
    numusehashFrom H t i (tally ks) totaluse ause =
      (totaluse + (nodeEntries t.node i).length,
        ause + (candidates H ((nodeEntries t.node i).map Prod.fst)).length,
        tally (candidates H ((nodeEntries t.node i).map Prod.fst) ++ ks)) := by
  induction i generalizing ks totaluse ause with
  | zero => rfl
  | succ i ih =>
      simp only [numusehashFrom, nodeEntries]
      split
      · rename_i k v next cell
        by_cases value : v ≠ .nil
        · rw [if_pos value, if_pos value, countint_tally]
          simp only [ih, List.length_cons, List.map_cons]
          rw [candidates_cons, List.length_append]
          refine Prod.ext (by simp only; omega) (Prod.ext (by simp only; omega) ?_)
          refine tally_perm ?_
          rw [List.append_assoc]
          exact List.perm_append_comm_assoc _ _ _
        · rw [if_neg value, if_neg value, ih]
      · exact ih ks totaluse ause

/-- `numusehash` counts the entries that have a value. -/
theorem numusehash_spec {H : Hashes} {t : HashTable} (ks : List Nat) :
    numusehash H t (tally ks) =
      ((nodeEntries t.node t.sizenode).length,
        (candidates H ((nodeEntries t.node t.sizenode).map Prod.fst)).length,
        tally (candidates H ((nodeEntries t.node t.sizenode).map Prod.fst) ++ ks)) := by
  rw [numusehash, numusehashFrom_eq, Nat.zero_add, Nat.zero_add]

/-! ### The size of the array part -/

/-- `n` is the best size of an array part for these indices, and `na` how many
of them it has a place for. -/
structure ArraySize (ks : List Nat) (na n : Nat) : Prop where
  count : na = ks.countP (· ≤ n)
  power : n = 0 ∨ ∃ i ≤ MAXBITS, n = 2 ^ i
  /-- More than half of it is in use. -/
  half : n = 0 ∨ n / 2 < na
  /-- That is so of no larger one. -/
  largest : ∀ j, n < 2 ^ j → ks.countP (· ≤ 2 ^ j) ≤ 2 ^ j / 2

/-- There are no more indices than their bound, since they are distinct and
begin at 1. -/
theorem countP_le {ks : List Nat} (distinct : ks.Nodup) (pos : ∀ k ∈ ks, 0 < k) (n : Nat) :
    ks.countP (· ≤ n) ≤ n := by
  rw [List.countP_eq_length_filter]
  have inside : ks.filter (· ≤ n) ⊆ List.range' 1 n := by
    intro k mem
    obtain ⟨mem, le⟩ := List.mem_filter.mp mem
    have low := pos k mem
    simp only [decide_eq_true_eq] at le
    exact List.mem_range'_1.mpr ⟨low, by omega⟩
  have size := (List.subperm_of_subset (distinct.filter _) inside).length_le
  simpa using size

/-- One more slice: what is counted up to its end is what was counted before,
and the slice. -/
theorem countP_slice {ks : List Nat} (pos : ∀ k ∈ ks, 0 < k) (i : Nat) :
    ks.countP (· ≤ 2 ^ i) = ks.countP (fun k => ceillog2 k < i) + tally ks i := by
  induction ks with
  | nil => rfl
  | cons k ks ih =>
      have le := ceillog2_le (k := k) (i := i) (pos k (by simp))
      have tail := ih fun k mem => pos k (List.mem_cons_of_mem _ mem)
      simp only [tally, List.countP_cons] at tail ⊢
      rw [tail]
      by_cases less : ceillog2 k < i
      · have ne : ceillog2 k ≠ i := by omega
        simp [← le, less, ne, less.le]
        omega
      by_cases same : ceillog2 k = i
      · simp [← le, same]
        omega
      · have above : ¬ ceillog2 k ≤ i := by omega
        simp [← le, less, same, above]

/-- What the loop of `computesizes` has found out before slice `i`. -/
structure SizedUpTo (ks : List Nat) (i a na n : Nat) : Prop where
  counted : a = ks.countP fun k => ceillog2 k < i
  count : na = ks.countP (· ≤ n)
  power : n = 0 ∨ ∃ i ≤ MAXBITS, n = 2 ^ i
  half : n = 0 ∨ n / 2 < na
  largest : ∀ j < i, n < 2 ^ j → ks.countP (· ≤ 2 ^ j) ≤ 2 ^ j / 2

section Sizes

variable {ks : List Nat} (distinct : ks.Nodup) (range : ∀ k ∈ ks, 0 < k ∧ k ≤ MAXASIZE)

include distinct range

/-- One slice of `computesizes`: it may make the array part larger, if more than
half of it would be in use and the slice has any index at all. -/
theorem SizedUpTo.step {i a na n : Nat} (found : SizedUpTo ks i a na n)
    (more : 2 ^ i / 2 < ks.length) :
    SizedUpTo ks (i + 1) (a + tally ks i)
      (if 0 < tally ks i ∧ 2 ^ i / 2 < a + tally ks i then a + tally ks i else na)
      (if 0 < tally ks i ∧ 2 ^ i / 2 < a + tally ks i then 2 ^ i else n) := by
  have pos : ∀ k ∈ ks, 0 < k := fun k mem => (range k mem).1
  have upTo : a + tally ks i = ks.countP (· ≤ 2 ^ i) := by
    rw [found.counted, countP_slice pos]
  have counted : a + tally ks i = ks.countP fun k => ceillog2 k < i + 1 := by
    rw [upTo]
    refine List.countP_congr fun k mem => ?_
    have le := ceillog2_le (i := i) (pos k mem)
    simp only [decide_eq_true_eq]
    omega
  by_cases better : 0 < tally ks i ∧ 2 ^ i / 2 < a + tally ks i
  · simp only [if_pos better]
    refine ⟨counted, upTo, .inr ⟨i, ?_, rfl⟩, .inr better.2, fun j less above => ?_⟩
    · have all : ks.length = ks.countP (· ≤ MAXASIZE) := by
        symm
        rw [List.countP_eq_length]
        intro k mem
        simpa using (range k mem).2
      -- a better size beyond the limit would be more than half full of indices below the limit
      have few := countP_le distinct pos MAXASIZE
      by_contra large
      have grows : 2 ^ (MAXBITS + 1) ≤ 2 ^ i := Nat.pow_le_pow_right (by decide) (by omega)
      rw [pow_succ] at grows
      simp only [MAXASIZE] at all few
      omega
    · have small := Nat.pow_lt_pow_iff_right (by decide : 1 < 2) |>.mp above
      omega
  · simp only [if_neg better]
    refine ⟨counted, found.count, found.power, found.half, fun j less above => ?_⟩
    by_cases early : j < i
    · exact found.largest j early above
    · obtain rfl : j = i := by omega
      rw [← upTo]
      by_cases none : tally ks j = 0
      · rw [none, Nat.add_zero, found.counted]
        cases j with
        | zero => simp
        | succ j =>
            have below : ks.countP (fun k => ceillog2 k < j + 1) = ks.countP (· ≤ 2 ^ j) := by
              refine List.countP_congr fun k mem => ?_
              have le := ceillog2_le (i := j) (pos k mem)
              simp only [decide_eq_true_eq]
              omega
            have few := countP_le distinct pos (2 ^ j)
            rw [below, pow_succ]
            omega
      · omega

/-- The rest of the slices, from `i` on. The loop stops where not even all
indices would fill half of the array part. -/
theorem computesizesFrom_spec {i a na n : Nat} (found : SizedUpTo ks i a na n) :
    ArraySize ks (computesizesFrom (tally ks) ks.length i a na n).1
      (computesizesFrom (tally ks) ks.length i a na n).2 := by
  fun_induction computesizesFrom (tally ks) ks.length i a na n with
  | case1 i a na n more a' better na' n' all =>
      have next := found.step distinct range more
      refine ⟨next.count, next.power, next.half, fun j above => ?_⟩
      by_cases early : j < i + 1
      · exact next.largest j early above
      · have few : ks.countP (· ≤ 2 ^ i) ≤ 2 ^ i :=
          countP_le distinct (fun k mem => (range k mem).1) _
        have upTo := countP_slice (fun k mem => (range k mem).1) i
        rw [← found.counted] at upTo
        have most : ks.countP (· ≤ 2 ^ j) ≤ ks.length := List.countP_le_length
        have grows : 2 ^ (i + 1) ≤ 2 ^ j := Nat.pow_le_pow_right (by decide) (by omega)
        rw [pow_succ] at grows
        omega
  | case2 i a na n more a' better na' n' more' ih =>
      exact ih (found.step distinct range more)
  | case3 i a na n stop =>
      refine ⟨found.count, found.power, found.half, fun j above => ?_⟩
      by_cases early : j < i
      · exact found.largest j early above
      · have most : ks.countP (· ≤ 2 ^ j) ≤ ks.length := List.countP_le_length
        have grows : 2 ^ i ≤ 2 ^ j := Nat.pow_le_pow_right (by decide) (by omega)
        omega

/-- `computesizes` makes the array part the largest of which more than half will
be in use. -/
theorem computesizes_spec :
    ArraySize ks (computesizes (tally ks) ks.length).1 (computesizes (tally ks) ks.length).2 := by
  refine computesizesFrom_spec distinct range ⟨?_, ?_, .inl rfl, .inl rfl, ?_⟩
  · simp
  · symm
    rw [List.countP_eq_zero]
    intro k mem
    have pos := (range k mem).1
    simp only [decide_eq_true_eq]
    omega
  · exact fun j less => absurd less (Nat.not_lt_zero j)

end Sizes

end ProfiLua
