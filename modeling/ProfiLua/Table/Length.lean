import ProfiLua.Table.Grow

/-!
The length of a table (`luaH_getn`).

A boundary of a table is an index with a value (or 0) before one without. The
array part is searched by halves if its last value is nil; otherwise the search
goes on from there in the node part, by doubling the index first. For a table
"built with bad purposes" the index gets too large for an `int`, and all
indices are tried. Every one of these searches ends at a boundary
(`luaHGetn_border`).
-/

namespace ProfiLua

open Program HashTable

/-- `MAX_INT`. -/
def MAX_INT : Nat := 2147483645

/-- `while (j - i > 1)`: between an index with a value and one without. -/
def bisect (absent : Nat → TableM Bool) (i j : Nat) : TableM Nat :=
  if 1 < j - i then do
    let m := (i + j) / 2
    if ← absent m then bisect absent i m else bisect absent m j
  else .ok i
termination_by j - i

section Length

variable (H : Hashes) (t : HashTable)

/-- `ttisnil(luaH_getnum(t, j))`. -/
def absentNum (j : Nat) : TableM Bool :=
  return match ← luaHGetnum H t j with
    | some slot => t.value slot = .nil
    | none => true

/-- `while (!ttisnil(luaH_getnum(t, i))) i++; return i - 1;` -/
def linearSearch : Nat → Nat → TableM Nat
  | 0, _ => .error .fault
  | rounds + 1, i => do
      if ← absentNum H t i then return i - 1 else linearSearch rounds (i + 1)

/-- The loop that doubles `j`; an `unsigned int` doubles at most 32 times. -/
def unboundSearchFrom : Nat → Nat → Nat → TableM Nat
  | 0, _, _ => .error .fault
  | rounds + 1, i, j => do
      if ← absentNum H t j then bisect (absentNum H t) i j
      else if MAX_INT < j * 2 then linearSearch H t (t.sizearray + t.sizenode + 1) 1
      else unboundSearchFrom rounds j (j * 2)

def unboundSearch (j : Nat) : TableM Nat := unboundSearchFrom H t 32 j (j + 1)

def luaHGetn : TableM Nat :=
  let j := t.sizearray
  if 0 < j ∧ t.array.getD (j - 1) .nil = .nil then
    bisect (fun m => .ok (t.array.getD (m - 1) .nil = .nil)) 0 j
  else if t.dummy then .ok j
  else unboundSearch H t j

end Length

/-! ### Boundaries -/

/-- An index with a value, or 0, before one without. -/
def Border (value : Nat → TValue) (n : Nat) : Prop :=
  (n = 0 ∨ value n ≠ .nil) ∧ value (n + 1) = .nil

/-- The halves close in on a boundary. One end always has a value, or is 0, and
the other has none. -/
theorem bisect_spec {absent : Nat → TableM Bool} (value : Nat → TValue) {i j : Nat}
    (less : i < j) (low : i = 0 ∨ value i ≠ .nil) (high : value j = .nil)
    (reads : ∀ m, 0 < m → m < j → absent m = .ok (value m = .nil)) :
    ∃ n, bisect absent i j = .ok n ∧ Border value n ∧ n < j := by
  induction i, j using bisect.induct with
  | case1 i j more m ihLow ihHigh =>
      have mid : absent m = .ok (value m = .nil) := reads m (by omega) (by omega)
      have step : bisect absent i j =
          (absent m >>= fun a => if a then bisect absent i m else bisect absent m j) := by
        rw [bisect, if_pos more]
      rw [step, mid, TableM.ok_bind]
      by_cases empty : value m = .nil
      · obtain ⟨n, found, border, below⟩ := ihLow (by omega) low empty
          fun m' pos lt => reads m' pos (by omega)
        refine ⟨n, ?_, border, by omega⟩
        rw [if_pos (by simpa using empty), found]
      · obtain ⟨n, found, border, below⟩ := ihHigh (by omega) (.inr empty) high reads
        refine ⟨n, ?_, border, below⟩
        rw [if_neg (by simpa using empty), found]
  | case2 i j done =>
      obtain rfl : j = i + 1 := by omega
      exact ⟨i, by rw [bisect, if_neg done], ⟨low, high⟩, less⟩

section Search

variable {H : Hashes} {t : HashTable}

/-- The value under an index. -/
def HashTable.index (H : Hashes) (t : HashTable) (n : Nat) : TValue :=
  t.lookup H (.number (.fin (n : Nat)))

/-- An index that is an `int` is looked up as a key of the table. -/
theorem absentNum_eq (S : t.Sound H) {j : Nat} (small : j < 2 ^ 31) :
    absentNum H t j = .ok (t.index H j = .nil) := by
  have cast : (TValue.number (.fin ((j : Int) : Rat))) = .number (.fin (j : Nat)) := by simp
  obtain ⟨r, found, spec⟩ := luaHGetnum_spec S (k := (j : Int)) (by omega) (by omega)
  rw [cast] at spec
  rw [absentNum, found, TableM.ok_bind, HashTable.index]
  cases r with
  | some slot =>
      rw [lookup_of_located S ((spec slot).mp rfl)]
      rfl
  | none =>
      rw [lookup_of_absent S fun slot place => by cases (spec slot).mpr place]
      rfl

/-- Not all of the indices a table has places for have a value, if one more is
asked for. -/
theorem exists_absent (S : t.Sound H) :
    ∃ m, 1 ≤ m ∧ m < 1 + (t.sizearray + t.sizenode + 1) ∧ t.index H m = .nil := by
  by_contra all
  push Not at all
  set keys := (List.range' 1 (t.sizearray + t.sizenode + 1)).map
    fun n => TValue.number (.fin (n : Nat)) with listed
  have distinct : keys.Nodup := by
    refine (List.nodup_range' 1).map fun m n same => ?_
    simpa using same
  have held : keys ⊆ valueKeys t := by
    intro k mem
    obtain ⟨n, inside, rfl⟩ := List.mem_map.mp mem
    obtain ⟨low, high⟩ := List.mem_range'_1.mp inside
    exact (mem_valueKeys S).mpr (all n low high)
  have most := (List.subperm_of_subset distinct held).length_le
  have array : ∀ (vs : List TValue) (i : Nat), (sliceEntries vs i).length ≤ vs.length := by
    intro vs
    induction vs with
    | nil => exact fun _ => Nat.le_refl 0
    | cons v vs ih =>
        intro i
        have rest := ih (i + 1)
        simp only [sliceEntries, List.length_cons]
        split
        · rw [List.length_cons]
          omega
        · omega
  have slice := array t.array 0
  have nodes := nodeEntries_length_le t.node t.sizenode
  rw [listed, List.length_map, List.length_range', valueKeys, List.length_map,
    List.length_append] at most
  simp only [sizearray] at most
  omega

/-- Trying all indices ends at a boundary, if one of those tried has no value.
-/
theorem linearSearch_spec (S : t.Sound H) {rounds i : Nat} (pos : 1 ≤ i)
    (low : i - 1 = 0 ∨ t.index H (i - 1) ≠ .nil) (small : i + rounds ≤ 2 ^ 31)
    (ends : ∃ m, i ≤ m ∧ m < i + rounds ∧ t.index H m = .nil) :
    ∃ n, linearSearch H t rounds i = .ok n ∧ Border (t.index H) n := by
  induction rounds generalizing i with
  | zero =>
      obtain ⟨m, from_i, before, -⟩ := ends
      omega
  | succ rounds ih =>
      rw [linearSearch, absentNum_eq S (by omega), TableM.ok_bind]
      by_cases empty : t.index H i = .nil
      · refine ⟨i - 1, ?_, low, ?_⟩
        · rw [if_pos (by simpa using empty)]
          rfl
        · rwa [Nat.sub_add_cancel pos]
      · obtain ⟨m, from_i, before, none⟩ := ends
        have ne : m ≠ i := by
          rintro rfl
          exact empty none
        rw [if_neg (by simpa using empty)]
        exact ih (by omega) (.inr (by simpa using empty)) (by omega)
          ⟨m, by omega, by omega, none⟩

/-- Doubling the index finds one without a value, and the halves do the rest. If
the index gets too large first, all indices are tried. -/
theorem unboundSearchFrom_spec (S : t.Sound H) {rounds i j : Nat} (less : i < j)
    (low : i = 0 ∨ t.index H i ≠ .nil) (small : j ≤ MAX_INT)
    (enough : MAX_INT < j * 2 ^ rounds) :
    ∃ n, unboundSearchFrom H t rounds i j = .ok n ∧ Border (t.index H) n := by
  have max : MAX_INT = 2147483645 := rfl
  induction rounds generalizing i j with
  | zero => omega
  | succ rounds ih =>
      rw [unboundSearchFrom, absentNum_eq S (by omega), TableM.ok_bind]
      by_cases empty : t.index H j = .nil
      · obtain ⟨n, found, border, -⟩ := bisect_spec (t.index H) less low empty fun m _ below =>
          absentNum_eq S (j := m) (by omega)
        exact ⟨n, by rw [if_pos (by simpa using empty), found], border⟩
      · rw [if_neg (by simpa using empty)]
        split_ifs with large
        · have array := S.sizearray_le
          have nodes : t.sizenode ≤ 2 ^ MAXBITS :=
            Nat.pow_le_pow_right (by decide) S.lsizenode_le
          have bits : 2 ^ MAXBITS = 2 ^ 26 := rfl
          simp only [MAXASIZE] at array
          exact linearSearch_spec S (le_refl 1) (.inl rfl) (by omega) (exists_absent S)
        · refine ih (by omega) (.inr empty) (by omega) ?_
          rw [Nat.mul_assoc, ← pow_succ']
          exact enough

/-- `luaH_getn` finds a boundary of every table, whatever its array part is
filled with. -/
theorem luaHGetn_border (S : t.Sound H) :
    ∃ n, luaHGetn H t = .ok n ∧ Border (t.index H) n := by
  have max : MAXASIZE = 2 ^ 26 := rfl
  have bound : MAX_INT = 2147483645 := rfl
  have small := S.sizearray_le
  have inArray : ∀ n, 0 < n → n ≤ t.sizearray → t.index H n = t.array.getD (n - 1) .nil := by
    intro n pos le
    have index : arrayindex H (.number (.fin (n : Nat))) = n :=
      (arrayindex_number (by omega)).mpr ⟨by simp, by omega⟩
    have inside : t.InArray H (.number (.fin (n : Nat))) := by
      rw [InArray, index]
      omega
    rw [HashTable.index, lookup_inArray S inside, index]
    congr 1
    omega
  simp only [luaHGetn]
  split_ifs with half dummy
  · obtain ⟨n, found, border, -⟩ := bisect_spec (t.index H) half.1 (.inl rfl)
      ((inArray _ half.1 (le_refl _)).trans half.2)
      fun m pos below => by rw [inArray m pos below.le]
    exact ⟨n, found, border⟩
  all_goals
    have low : t.sizearray = 0 ∨ t.index H t.sizearray ≠ .nil := by
      by_cases zero : t.sizearray = 0
      · exact .inl zero
      · right
        rw [inArray _ (by omega) (le_refl _)]
        exact fun none => half ⟨by omega, none⟩
  · refine ⟨_, rfl, low, ?_⟩
    obtain ⟨bits, -, unused⟩ := S.isdummy dummy
    have outside : ¬ t.InArray H (.number (.fin (t.sizearray + 1 : Nat))) := by
      rintro ⟨pos, le⟩
      obtain ⟨k, same, index, -⟩ := arrayindex_pos pos
      simp only [TValue.number.injEq, LuaNumber.fin.injEq] at same
      have whole : ((t.sizearray + 1 : Nat) : Int) = k := by exact_mod_cast same
      omega
    refine lookup_of_absent S fun slot place => ?_
    obtain ⟨i, -, held⟩ := (located_outside outside slot).mp place
    obtain ⟨n, cell, key⟩ := keyAt_eq_some.mp held
    have below := Pool.lt_bound cell
    rw [S.nodes, sizenode, bits] at below
    obtain rfl : i = 0 := by omega
    rw [unused] at cell
    cases cell
    cases key
  · refine unboundSearchFrom_spec S (Nat.lt_succ_self _) low (by omega) ?_
    have pos : 1 * 2 ^ 32 ≤ (t.sizearray + 1) * 2 ^ 32 := Nat.mul_le_mul_right _ (by omega)
    omega

end Search

end ProfiLua
