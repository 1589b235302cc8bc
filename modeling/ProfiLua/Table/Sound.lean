import ProfiLua.Table.Parts

/-!
What holds of every Lua table between two calls, and what a search finds.

`Sound` is the invariant; `Located` says where the value of a key is kept. In a
sound table `luaH_get` finds that place and no other (`luaHGet_spec`), so the
table is a map from keys to values, `lookup`.
-/

namespace ProfiLua

open Program

/-- A node in use has a key that can be searched for, or a dead one. -/
def nodeLabels : Labels NodeEntry TValue where
  key e := match e.key with
    | .tvk k => some k
    | _ => none
  former e := match e.key with
    | .dead k => some k
    | _ => none
  used e := e.key ≠ .nil
  used_of_key := by
    intro e k key
    cases h : e.key <;> simp [h] at key ⊢
  former_of_key := by
    intro e k key
    cases h : e.key <;> simp [h] at key ⊢

@[simp] theorem nodeLabels_key_tvk (k v : TValue) : nodeLabels.key ⟨.tvk k, v⟩ = some k := rfl

@[simp] theorem nodeLabels_used_tvk (k v : TValue) : nodeLabels.used ⟨.tvk k, v⟩ = true := rfl

theorem nodeLabels_key_iff {e : NodeEntry} {k : TValue} :
    nodeLabels.key e = some k ↔ e.key = .tvk k := by
  cases h : e.key <;> simp [nodeLabels, h]

theorem nodeLabels_used_iff {e : NodeEntry} : nodeLabels.used e = false ↔ e.key = .nil := by
  simp [nodeLabels]

namespace HashTable

/-- The key kept in a node. -/
def keyAt (t : HashTable) (i : Nat) : Option TValue := nodeLabels.keyAt t.node i

theorem keyAt_eq_some {t : HashTable} {i : Nat} {k : TValue} :
    t.keyAt i = some k ↔ ∃ n, t.node.cell i = some n ∧ n.val.key = .tvk k := by
  simp only [keyAt, Labels.keyAt_eq_some, nodeLabels_key_iff]

/-- The keys the array part has a place for. -/
def InArray (H : Hashes) (t : HashTable) (key : TValue) : Prop :=
  0 < arrayindex H key ∧ arrayindex H key ≤ t.sizearray

/-- The invariant of a table. -/
structure Sound (H : Hashes) (t : HashTable) : Prop where
  sizearray_le : t.sizearray ≤ MAXASIZE
  lsizenode_le : t.lsizenode ≤ MAXBITS
  nodes : t.node.bound = t.sizenode
  scatter : Scatter nodeLabels (t.mainposition H) t.node
  keyable : ∀ i k, t.keyAt i = some k → k ≠ .nil ∧ k ≠ .number .nan
  outside : ∀ i k, t.keyAt i = some k → ¬ t.InArray H k
  /-- Only an entry that can be searched for has a value. -/
  live : ∀ i n, t.node.cell i = some n → n.val.val ≠ .nil → ∃ k, n.val.key = .tvk k
  free_le : t.lastfree ≤ t.sizenode
  taken : t.dummy = false → ∀ i, t.lastfree ≤ i → i < t.sizenode →
    nodeLabels.usedAt t.node i = true
  isdummy : t.dummy = true →
    t.lsizenode = 0 ∧ t.lastfree = 0 ∧ t.node.cell 0 = some ⟨.unused, none⟩

/-- Where the value of a key is kept. -/
def Located (H : Hashes) (t : HashTable) (key : TValue) : Slot → Prop
  | .array i => arrayindex H key = i + 1 ∧ i < t.sizearray
  | .node i => t.keyAt i = some key

end HashTable

/-! ### Keys -/

section Keys

variable {H : Hashes} {t : HashTable}

/-- Equal numbers are the same number, and NaN is equal to none. -/
theorem LuaNumber.numeq_iff {a b : LuaNumber} : a.numeq b = true ↔ a = b ∧ a ≠ .nan := by
  simp [LuaNumber.numeq]

/-- The index of a number is the number, if it is a positive `int`. -/
theorem arrayindex_number {n : LuaNumber} {k : Int} (pos : 0 < k) :
    arrayindex H (.number n) = k ↔ n = .fin k ∧ k < 2 ^ 31 := by
  have high := (luaNumber2integer H.toCasts n).toInt_lt
  simp only [arrayindex]
  constructor
  · intro index
    split_ifs at index with eq
    · rw [LuaNumber.numeq_iff, index] at eq
      exact ⟨eq.1.symm, index ▸ high⟩
    · omega
  · rintro ⟨rfl, small⟩
    have cast : (luaNumber2integer H.toCasts (.fin k)).toInt = k := by
      rw [luaNumber2integer_int _ (by omega) (by omega)]
      exact Int32.toInt_ofInt_of_le (by omega) (by omega)
    rw [cast, if_pos (by simp [LuaNumber.numeq_iff])]

theorem arrayindex_pos {key : TValue} (pos : 0 < arrayindex H key) :
    ∃ k : Int, key = .number (.fin k) ∧ arrayindex H key = k ∧ k < 2 ^ 31 := by
  cases key with
  | number n =>
      obtain ⟨same, small⟩ := (arrayindex_number pos).mp rfl
      exact ⟨_, congrArg TValue.number same, rfl, small⟩
  | _ => simp [arrayindex] at pos

/-- The general comparison finds the key itself, and no other. -/
theorem rawequal_iff {k key : TValue} (keyable : k ≠ .number .nan) :
    luaORawequalObj k key = true ↔ k = key := by
  cases k <;> cases key <;> simp_all [luaORawequalObj, LuaNumber.numeq_iff]

theorem eq_of_rawequal {k key : TValue} (equal : luaORawequalObj k key = true) : k = key := by
  cases k <;> cases key <;> simp_all [luaORawequalObj, LuaNumber.numeq_iff]

/-- The comparison with a node finds the label of the node. -/
theorem NodeKey.rawequal_iff {e : NodeEntry} {key : TValue} (nonnil : key ≠ .nil)
    (keyable : ∀ k, e.key = .tvk k → k ≠ .number .nan) :
    e.key.rawequal key = true ↔ nodeLabels.key e = some key := by
  rw [nodeLabels_key_iff]
  cases h : e.key with
  | nil =>
      simp only [NodeKey.rawequal, reduceCtorEq, iff_false]
      rw [ProfiLua.rawequal_iff (by simp)]
      exact fun same => nonnil same.symm
  | tvk k =>
      simp only [NodeKey.rawequal, NodeKey.tvk.injEq]
      exact ProfiLua.rawequal_iff (keyable k h)
  | dead k => simp [NodeKey.rawequal]

end Keys

/-! ### Main positions -/

namespace HashTable

variable (t : HashTable) (H : Hashes)

theorem sizenode_pos : 0 < t.sizenode := Nat.two_pow_pos _

theorem hashpow2_lt (h : Nat) : t.hashpow2 h < t.sizenode :=
  Nat.and_lt_two_pow _ (Nat.sub_lt t.sizenode_pos (by omega))

theorem hashmod_lt (h : Nat) : t.hashmod h < t.sizenode := by
  unfold hashmod sizenode
  cases t.lsizenode with
  | zero => exact Nat.mod_lt _ (by decide)
  | succ l =>
      have odd : (2 ^ (l + 1) - 1) ||| 1 = 2 ^ (l + 1) - 1 := by
        apply Nat.eq_of_testBit_eq
        intro i
        have high : ∀ j, Nat.testBit 1 (j + 1) = false := by simp [Nat.testBit_succ]
        cases i <;> simp [Nat.testBit_or, Nat.testBit_two_pow_sub_one, high]
      have pos := Nat.two_pow_pos l
      rw [odd, pow_succ]
      have small := Nat.mod_lt h (show 0 < 2 ^ l * 2 - 1 by omega)
      omega

/-- Every main position is a node, whatever the hash functions give. -/
theorem mainposition_lt (key : TValue) : t.mainposition H key < t.sizenode := by
  cases key with
  | number n =>
      simp only [mainposition, hashnum]
      split
      · exact t.sizenode_pos
      · exact t.hashmod_lt _
  | string s => exact t.hashpow2_lt _
  | boolean b => exact t.hashpow2_lt _
  | _ => exact t.hashmod_lt _

end HashTable

/-! ### Search -/

section Search

open HashTable

variable {H : Hashes} {t : HashTable}

/-- A walk from the main position of a key finds the node with that key. If
there is none it ends, since the chains do. -/
theorem HashTable.Sound.walk (S : t.Sound H) (test : NodeKey → Bool) (key : TValue)
    (hits : ∀ i n, t.node.cell i = some n →
      (test n.val.key = true ↔ nodeLabels.key n.val = some key)) :
    ∃ r, t.walk test (t.mainposition H key) = .ok r ∧
      ∀ slot, r = some slot ↔ ∃ i, slot = .node i ∧ t.keyAt i = some key := by
  obtain ⟨r, found, spec⟩ := S.scatter.find (fun e => test e.key) (k := key) hits
  refine ⟨r.map .node, by simp only [HashTable.walk, found], fun slot => ?_⟩
  rw [Option.map_eq_some_iff]
  constructor
  · rintro ⟨i, same, rfl⟩
    exact ⟨i, rfl, (spec i).mp same⟩
  · rintro ⟨i, rfl, key⟩
    exact ⟨i, (spec i).mpr key, rfl⟩

/-- The value of a key with a place in the array part is there. -/
theorem located_inArray (S : t.Sound H) {key : TValue} (inside : t.InArray H key) (slot : Slot) :
    t.Located H key slot ↔ slot = .array (arrayindex H key - 1).toNat := by
  obtain ⟨low, high⟩ := inside
  cases slot with
  | array i =>
      simp only [Located, Slot.array.injEq]
      omega
  | node i =>
      simp only [Located, reduceCtorEq, iff_false]
      exact fun held => S.outside i key held ⟨low, high⟩

/-- The value of any other key is in the node with that key. -/
theorem located_outside {key : TValue} (outside : ¬ t.InArray H key) (slot : Slot) :
    t.Located H key slot ↔ ∃ i, slot = .node i ∧ t.keyAt i = some key := by
  cases slot with
  | array i =>
      simp only [Located, reduceCtorEq, false_and, exists_false, iff_false]
      rintro ⟨index, inside⟩
      exact outside ⟨by omega, by omega⟩
  | node i => simp [Located]

/-- The unsigned comparison is the range check of its comment: 0 and the
negative indices wrap to the largest. -/
theorem getnum_inside (S : t.Sound H) {k : Int} (low : -2 ^ 31 ≤ k) (high : k < 2 ^ 31) :
    (k - 1) % 2 ^ 32 < t.sizearray ↔ 0 < k ∧ k ≤ t.sizearray := by
  have small := S.sizearray_le
  have size : MAXASIZE = 2 ^ 26 := rfl
  omega

/-- `luaH_getnum` finds where the value of the number is kept. -/
theorem luaHGetnum_spec (S : t.Sound H) {k : Int} (low : -2 ^ 31 ≤ k) (high : k < 2 ^ 31) :
    ∃ r, luaHGetnum H t k = .ok r ∧
      ∀ slot, r = some slot ↔ t.Located H (.number (.fin k)) slot := by
  have index : arrayindex H (.number (.fin k)) = k ∨ k ≤ 0 ∧
      arrayindex H (.number (.fin k)) ≤ 0 := by
    by_cases pos : 0 < k
    · exact .inl ((arrayindex_number pos).mpr ⟨rfl, high⟩)
    · right
      refine ⟨by omega, ?_⟩
      by_contra above
      obtain ⟨j, same, index, _⟩ := arrayindex_pos
        (show 0 < arrayindex H (.number (.fin (k : Rat))) by omega)
      simp only [TValue.number.injEq, LuaNumber.fin.injEq, Int.cast_inj] at same
      omega
  have range := getnum_inside S low high
  by_cases inside : 0 < k ∧ k ≤ t.sizearray
  · refine ⟨some (.array (k - 1).toNat), by rw [luaHGetnum, if_pos (range.mpr inside)], ?_⟩
    intro slot
    rcases index with index | ⟨neg, -⟩
    · rw [located_inArray S (by rw [InArray, index]; exact inside), index]
      simp [eq_comm]
    · omega
  · have outside : ¬ t.InArray H (.number (.fin k)) := by
      rintro ⟨pos, le⟩
      rcases index with index | ⟨-, neg⟩ <;> omega
    rw [luaHGetnum, if_neg (fun h => inside (range.mp h))]
    simp only [located_outside outside]
    refine S.walk _ (.number (.fin k)) fun i n _ => ?_
    rw [nodeLabels_key_iff]
    split
    · rename_i m same
      rw [same, LuaNumber.numeq_iff]
      simp only [NodeKey.tvk.injEq, TValue.number.injEq, and_iff_left_iff_imp]
      rintro rfl
      simp
    · rename_i other
      simpa using fun same => other _ same

theorem luaHGetstr_spec (S : t.Sound H) (key : Bytes) :
    ∃ r, luaHGetstr H t key = .ok r ∧ ∀ slot, r = some slot ↔ t.Located H (.string key) slot := by
  have outside : ¬ t.InArray H (.string key) := by
    rintro ⟨pos, _⟩
    simp [arrayindex] at pos
  simp only [located_outside outside]
  refine S.walk _ (.string key) fun i n _ => ?_
  rw [nodeLabels_key_iff]
  split
  · rename_i s same
    simp [same]
  · rename_i other
    simpa using fun same => other _ same

/-- `luaH_get` finds where the value of the key is kept, by whichever of the
searches the key needs. -/
theorem luaHGet_spec (S : t.Sound H) (key : TValue) :
    ∃ r, luaHGet H t key = .ok r ∧ ∀ slot, r = some slot ↔ t.Located H key slot := by
  have general : key ≠ .nil → ¬ t.InArray H key →
      ∃ r, t.walk (·.rawequal key) (t.mainposition H key) = .ok r ∧
        ∀ slot, r = some slot ↔ t.Located H key slot := by
    intro nonnil outside
    simp only [located_outside outside]
    refine S.walk _ key fun i n cell => NodeKey.rawequal_iff nonnil fun k held => ?_
    exact (S.keyable i k (keyAt_eq_some.mpr ⟨n, cell, held⟩)).2
  have other : arrayindex H key = -1 → ¬ t.InArray H key := by
    rintro index ⟨pos, _⟩
    omega
  cases key with
  | nil =>
      refine ⟨none, rfl, fun slot => ?_⟩
      rw [located_outside (other rfl)]
      simp only [reduceCtorEq, false_iff]
      rintro ⟨i, -, held⟩
      exact (S.keyable i _ held).1 rfl
  | string s => exact luaHGetstr_spec S s
  | number n =>
      simp only [luaHGet]
      split_ifs with int
      · have low := (luaNumber2integer H.toCasts n).le_toInt
        have high := (luaNumber2integer H.toCasts n).toInt_lt
        have same := (LuaNumber.numeq_iff.mp int).1
        have found := luaHGetnum_spec S low high
        rwa [same] at found
      · refine general (by simp) (other ?_)
        simp only [arrayindex, if_neg int]
  | boolean b => exact general (by simp) (other rfl)
  | lightuserdata p => exact general (by simp) (other rfl)
  | table a => exact general (by simp) (other rfl)
  | function a => exact general (by simp) (other rfl)
  | userdata a => exact general (by simp) (other rfl)
  | thread a => exact general (by simp) (other rfl)

end Search

/-! ### The map a table is -/

/-- What is found under a key. -/
def HashTable.lookup (H : Hashes) (t : HashTable) (key : TValue) : TValue :=
  match luaHGet H t key with
  | .ok (some slot) => t.value slot
  | _ => .nil

namespace HashTable

variable {H : Hashes} {t t' : HashTable} {key : TValue} {slot : Slot}

/-- What is found is the value that is kept there. -/
theorem lookup_of_located (S : t.Sound H) (place : t.Located H key slot) :
    t.lookup H key = t.value slot := by
  obtain ⟨r, found, spec⟩ := luaHGet_spec S key
  rw [(spec slot).mpr place] at found
  simp only [lookup, found]

theorem lookup_of_absent (S : t.Sound H) (absent : ∀ slot, ¬ t.Located H key slot) :
    t.lookup H key = .nil := by
  obtain ⟨r, found, spec⟩ := luaHGet_spec S key
  cases r with
  | none => simp only [lookup, found]
  | some slot => exact absurd ((spec slot).mp rfl) (absent slot)

/-- A lookup never fails, and gives what `lookup` says. -/
theorem luaHGetValue_eq (S : t.Sound H) (key : TValue) :
    luaHGetValue H t key = .ok (t.lookup H key) := by
  obtain ⟨r, found, -⟩ := luaHGet_spec S key
  cases r <;> simp only [luaHGetValue, lookup, found] <;> rfl

/-- An index with a place in the array part reads that place. -/
theorem lookup_inArray (S : t.Sound H) (inside : t.InArray H key) :
    t.lookup H key = t.array.getD (arrayindex H key - 1).toNat .nil :=
  lookup_of_located S ((located_inArray S inside _).mpr rfl)

/-- The node part has a value for a key. -/
def Holds (t : HashTable) (key v : TValue) : Prop :=
  ∃ i next, t.node.cell i = some ⟨⟨.tvk key, v⟩, next⟩

/-- A key without one reads the node that holds it. -/
theorem lookup_outside (S : t.Sound H) (outside : ¬ t.InArray H key) {v : TValue}
    (value : v ≠ .nil) : t.lookup H key = v ↔ t.Holds key v := by
  have place := located_outside (t := t) outside
  constructor
  · intro found
    by_cases absent : ∀ slot, ¬ t.Located H key slot
    · rw [lookup_of_absent S absent] at found
      exact absurd found.symm value
    · push Not at absent
      obtain ⟨slot, located⟩ := absent
      rw [lookup_of_located S located] at found
      obtain ⟨i, rfl, held⟩ := (place slot).mp located
      obtain ⟨⟨⟨k, w⟩, next⟩, cell, rfl⟩ := keyAt_eq_some.mp held
      simp only [HashTable.value, cell, Option.map_some, Option.getD_some] at found
      exact ⟨i, next, found ▸ cell⟩
  · rintro ⟨i, next, cell⟩
    have held : t.keyAt i = some key := keyAt_eq_some.mpr ⟨_, cell, rfl⟩
    rw [lookup_of_located S ((place (.node i)).mpr ⟨i, rfl, held⟩)]
    simp [HashTable.value, cell]

/-- Two tables with one array part and the same values in their nodes are the
same map. -/
theorem lookup_congr (S : t.Sound H) (S' : t'.Sound H) (array : t'.array = t.array)
    (nodes : ∀ v, v ≠ .nil → (t'.Holds key v ↔ t.Holds key v)) :
    t'.lookup H key = t.lookup H key := by
  have range : t'.InArray H key ↔ t.InArray H key := by
    simp only [InArray, sizearray, array]
  by_cases inside : t.InArray H key
  · rw [lookup_inArray S inside, lookup_inArray S' (range.mpr inside), array]
  · have outside := fun h => inside (range.mp h)
    by_cases empty : t.lookup H key = .nil
    · by_contra other
      rw [empty] at other
      have held := (nodes _ other).mp ((lookup_outside S' outside other).mp rfl)
      rw [(lookup_outside S inside other).mpr held] at empty
      exact other empty
    · exact (lookup_outside S' outside empty).mpr
        ((nodes _ empty).mpr ((lookup_outside S inside empty).mp rfl))

/-- A pointer leads to the value of one key at most. -/
theorem located_unique {k : TValue} (first : t.Located H key slot)
    (second : t.Located H k slot) : k = key := by
  cases slot with
  | array i =>
      obtain ⟨j, rfl, index, -⟩ := arrayindex_pos (show 0 < arrayindex H key by
        have := first.1
        omega)
      obtain ⟨j', rfl, index', -⟩ := arrayindex_pos (show 0 < arrayindex H k by
        have := second.1
        omega)
      rw [← index, ← index', first.1, second.1]
  | node i =>
      have same := first.symm.trans second
      exact (Option.some.inj same).symm

end HashTable

end ProfiLua
