import ProfiLua.Table.Resize

/-!
Assignments to tables of any size.

`rehash` counts every key, so the new array part and the new node vector
together have room for all entries and the key that is to come
(`rehash_spec`). With that, `luaH_set` always gives a place for the value
(`luaHSet_spec`), as long as the table has fewer entries than the largest vector
has nodes.
-/

namespace ProfiLua

open Program HashTable

section Grow

variable {H : Hashes} {t : HashTable}

/-! ### All keys of a table -/

/-- The keys that have a value. -/
def valueKeys (t : HashTable) : List TValue :=
  ((sliceEntries t.array 0 ++ nodeEntries t.node t.sizenode)).map Prod.fst

/-- An entry of the array part is what is found under its index. -/
theorem lookup_of_mem_slice (S : t.Sound H) {e : TValue × TValue}
    (mem : e ∈ sliceEntries t.array 0) :
    t.InArray H e.1 ∧ t.lookup H e.1 = e.2 ∧ e.2 ≠ .nil := by
  obtain ⟨j, below, index, value, ne⟩ := mem_sliceEntries.mp mem
  have max : MAXASIZE = 2 ^ 26 := rfl
  have small := S.sizearray_le
  simp only [sizearray] at small
  have arrayIndex : arrayindex H e.1 = (j + 1 : Nat) := by
    rw [index]
    exact (arrayindex_number (by omega)).mpr ⟨by simp, by omega⟩
  have inside : t.InArray H e.1 := by
    rw [InArray, arrayIndex, sizearray]
    omega
  have place : (((j + 1 : Nat) : Int) - 1).toNat = j := by omega
  refine ⟨inside, ?_, ne⟩
  rw [lookup_inArray S inside, arrayIndex, place, value]

/-- An entry of the nodes is what is found under its key, which the array part
has no place for. -/
theorem lookup_of_mem_node (S : t.Sound H) {e : TValue × TValue} {n : Nat}
    (mem : e ∈ nodeEntries t.node n) :
    ¬ t.InArray H e.1 ∧ t.lookup H e.1 = e.2 ∧ e.2 ≠ .nil := by
  obtain ⟨value, i, -, next, cell⟩ := mem_nodeEntries.mp mem
  have outside := S.outside i e.1 (keyAt_eq_some.mpr ⟨_, cell, rfl⟩)
  exact ⟨outside, (lookup_outside S outside value).mpr ⟨i, next, cell⟩, value⟩

/-- No key is counted twice, for the parts have none in common and each has a
key once. -/
theorem valueKeys_nodup (S : t.Sound H) : (valueKeys t).Nodup := by
  rw [valueKeys, List.map_append, List.nodup_append]
  refine ⟨sliceEntries_nodup _ _, nodeEntries_nodup S _, ?_⟩
  intro k first k' second same
  obtain ⟨e, mem, rfl⟩ := List.mem_map.mp first
  obtain ⟨e', mem', rfl⟩ := List.mem_map.mp second
  have inside := (lookup_of_mem_slice S mem).1
  rw [same] at inside
  exact (lookup_of_mem_node S mem').1 inside

theorem lookup_valueKeys (S : t.Sound H) {k : TValue} (mem : k ∈ valueKeys t) :
    t.lookup H k ≠ .nil := by
  obtain ⟨e, held, rfl⟩ := List.mem_map.mp mem
  rcases List.mem_append.mp held with inSlice | inNode
  · obtain ⟨-, same, ne⟩ := lookup_of_mem_slice S inSlice
    rwa [same]
  · obtain ⟨-, same, ne⟩ := lookup_of_mem_node S inNode
    rwa [same]

/-- A list that has every key with a value is no shorter than the table. -/
theorem valueKeys_length_le (S : t.Sound H) {cover : List TValue}
    (covers : ∀ k, t.lookup H k ≠ .nil → k ∈ cover) : (valueKeys t).length ≤ cover.length :=
  (List.subperm_of_subset (valueKeys_nodup S) fun k mem =>
    covers k (lookup_valueKeys S mem)).length_le

/-! ### What a rehash counts -/

theorem candidate_eq_some {key : TValue} {c : Nat} :
    candidate H key = some c ↔ arrayindex H key = c ∧ 0 < c ∧ c ≤ MAXASIZE := by
  simp only [candidate]
  split_ifs with range
  · simp only [Option.some.injEq]
    omega
  · simp only [false_iff]
    omega

theorem candidates_nodup {keys : List TValue} (distinct : keys.Nodup) :
    (candidates H keys).Nodup := by
  refine distinct.filterMap fun k k' c first second => ?_
  obtain ⟨index, pos, -⟩ := candidate_eq_some.mp first
  obtain ⟨index', -, -⟩ := candidate_eq_some.mp second
  obtain ⟨j, rfl, same, -⟩ := arrayindex_pos (show 0 < arrayindex H k by omega)
  obtain ⟨j', rfl, same', -⟩ := arrayindex_pos (show 0 < arrayindex H k' by omega)
  rw [← same, ← same', index, index']

/-- The candidates of a slice of the array part are the indices at which there
is a value. -/
theorem candidates_slice {vs : List TValue} {i : Nat} (small : i + vs.length ≤ MAXASIZE) :
    candidates H ((sliceEntries vs i).map Prod.fst) =
      (List.range' (i + 1) vs.length).filter fun j => vs.getD (j - 1 - i) .nil ≠ .nil := by
  induction vs generalizing i with
  | nil => rfl
  | cons v vs ih =>
      simp only [List.length_cons] at small
      have max : MAXASIZE = 2 ^ 26 := rfl
      have rest : (List.range' (i + 1 + 1) vs.length).filter
          (fun j => (v :: vs).getD (j - 1 - i) .nil ≠ .nil) =
          (List.range' (i + 1 + 1) vs.length).filter
            (fun j => vs.getD (j - 1 - (i + 1)) .nil ≠ .nil) := by
        refine List.filter_congr fun j mem => ?_
        have low := (List.mem_range'_1.mp mem).1
        rw [show j - 1 - i = (j - 1 - (i + 1)) + 1 by omega]
        rfl
      have first : candidate H (.number (.fin (i + 1 : Nat))) = some (i + 1) := by
        rw [candidate_eq_some]
        refine ⟨(arrayindex_number (by omega)).mpr ⟨by simp, by omega⟩, by omega, by omega⟩
      rw [List.length_cons, List.range'_succ, List.filter_cons, rest, ← ih (by omega)]
      simp only [sliceEntries, Nat.add_sub_cancel, Nat.sub_self, List.getD_cons_zero,
        decide_eq_true_eq]
      split_ifs with value
      · simp only [candidates, List.map_cons, List.filterMap_cons, first]
      · rfl

/-- The indices in use are the candidates among the keys of the array part. -/
theorem usedIndices_eq (S : t.Sound H) :
    usedIndices t 1 = candidates H ((sliceEntries t.array 0).map Prod.fst) := by
  have small := S.sizearray_le
  simp only [sizearray] at small
  rw [candidates_slice (by omega)]
  rfl

theorem candidates_slice_length {vs : List TValue} {i : Nat} (small : i + vs.length ≤ MAXASIZE) :
    (candidates H ((sliceEntries vs i).map Prod.fst)).length = (sliceEntries vs i).length := by
  induction vs generalizing i with
  | nil => rfl
  | cons v vs ih =>
      simp only [List.length_cons] at small
      have max : MAXASIZE = 2 ^ 26 := rfl
      have first : candidate H (.number (.fin (i + 1 : Nat))) = some (i + 1) := by
        rw [candidate_eq_some]
        refine ⟨(arrayindex_number (by omega)).mpr ⟨by simp, by omega⟩, by omega, by omega⟩
      have rest := ih (i := i + 1) (by omega)
      simp only [candidates] at rest
      simp only [sliceEntries]
      split_ifs
      · simp only [candidates, List.map_cons, List.filterMap_cons, first, List.length_cons, rest]
      · exact rest

/-- The keys without a place in the array part are those that are not counted
for it. -/
theorem length_beyond (keys : List TValue) {n : Nat} (small : n ≤ MAXASIZE) :
    (keys.filter (beyond H n)).length + (candidates H keys).countP (· ≤ n) = keys.length := by
  induction keys with
  | nil => rfl
  | cons k keys ih =>
      by_cases place : beyond H n k = true
      · have notCounted : ((candidate H k).toList).countP (· ≤ n) = 0 := by
          cases found : candidate H k with
          | none => rfl
          | some c =>
              obtain ⟨index, pos, -⟩ := candidate_eq_some.mp found
              simp only [beyond, index, Bool.not_eq_true', decide_eq_false_iff_not] at place
              simp only [Option.toList_some, List.countP_singleton, decide_eq_true_eq]
              rw [if_neg (by omega)]
        rw [List.filter_cons_of_pos place, candidates_cons, List.countP_append, notCounted,
          List.length_cons, List.length_cons]
        omega
      · have range : 0 < arrayindex H k ∧ arrayindex H k ≤ n := by
          simpa [beyond] using place
        have found : candidate H k = some (arrayindex H k).toNat := by
          rw [candidate_eq_some]
          omega
        have counted : (arrayindex H k).toNat ≤ n := by omega
        rw [List.filter_cons_of_neg place, candidates_cons, found, Option.toList_some,
          List.singleton_append, List.countP_cons_of_pos (by simpa using counted),
          List.length_cons]
        omega

/-- `rehash` resizes the table to what was counted: the array part gets the size
that `computesizes` finds best, and the nodes what is left. -/
theorem rehash_eq (S : t.Sound H) (ek : TValue) :
    ∃ na n, rehash H t ek = resize H t n ((ek :: valueKeys t).length - na) ∧
      (ek ∉ valueKeys t → ArraySize (candidates H (ek :: valueKeys t)) na n) := by
  set A := (sliceEntries t.array 0).map Prod.fst with slice
  set N := (nodeEntries t.node t.sizenode).map Prod.fst with node
  have keys : valueKeys t = A ++ N := by
    rw [valueKeys, List.map_append]
  have small := S.sizearray_le
  have sizeA : (candidates H A).length = A.length := by
    rw [slice, candidates_slice_length, List.length_map]
    simpa [sizearray] using small
  have sizeN : (nodeEntries t.node t.sizenode).length = N.length := by
    rw [node, List.length_map]
  set ks := (candidate H ek).toList ++ (candidates H N ++ candidates H A) with all
  have perm : ks.Perm (candidates H (ek :: valueKeys t)) := by
    rw [candidates_cons, keys, candidates, List.filterMap_append, all]
    exact List.Perm.append_left _ List.perm_append_comm
  have length : A.length + (candidates H N).length + (candidate H ek).toList.length =
      ks.length := by
    rw [all, List.length_append, List.length_append, sizeA]
    omega
  have step : rehash H t ek = resize H t (computesizes (tally ks) ks.length).2
      ((ek :: valueKeys t).length - (computesizes (tally ks) ks.length).1) := by
    have start : (fun _ => 0 : Nat → Nat) = tally [] := rfl
    have total : A.length + N.length + 1 = (ek :: valueKeys t).length := by
      rw [keys, List.length_cons, List.length_append]
    simp only [rehash, start, numusearray_spec small, usedIndices_eq S, numusehash_spec,
      countint_tally, ← slice, ← node, sizeA, sizeN, ← all, length, total]
  refine ⟨_, _, step, fun absent => ?_⟩
  have distinct : (ek :: valueKeys t).Nodup := List.nodup_cons.mpr ⟨absent, valueKeys_nodup S⟩
  have range : ∀ k ∈ candidates H (ek :: valueKeys t), 0 < k ∧ k ≤ MAXASIZE := by
    intro k mem
    obtain ⟨key, -, found⟩ := List.mem_filterMap.mp mem
    exact (candidate_eq_some.mp found).2
  rw [tally_perm perm, perm.length_eq]
  exact computesizes_spec (candidates_nodup distinct) range

theorem ArraySize.le_MAXASIZE {ks : List Nat} {na n : Nat} (A : ArraySize ks na n) :
    n ≤ MAXASIZE := by
  rcases A.power with rfl | ⟨i, le, rfl⟩
  · exact Nat.zero_le _
  · exact Nat.pow_le_pow_right (by decide) le

theorem sliceEntries_append (vs ws : List TValue) (i : Nat) :
    sliceEntries (vs ++ ws) i = sliceEntries vs i ++ sliceEntries ws (i + vs.length) := by
  induction vs generalizing i with
  | nil => rfl
  | cons v vs ih =>
      simp only [List.cons_append, sliceEntries, ih, List.length_cons]
      rw [show i + 1 + vs.length = i + (vs.length + 1) by omega]
      split <;> rfl

/-- What a resize inserts again are entries of the table, and those that go to
the nodes have no place in the new array part. -/
theorem nodeKeys_resizeEntries (n : Nat) :
    (nodeKeys H n (resizeEntries t n)).Sublist ((valueKeys t).filter (beyond H n)) := by
  refine List.Sublist.filter _ (List.Sublist.map _ (List.Sublist.append_right ?_ _))
  by_cases past : n ≤ t.array.length
  · have parts := sliceEntries_append (t.array.take n) (t.array.drop n) 0
    rw [List.take_append_drop, List.length_take, Nat.min_eq_left past, Nat.zero_add] at parts
    rw [parts]
    exact List.sublist_append_right _ _
  · rw [List.drop_of_length_le (by omega)]
    exact List.nil_sublist _

/-- After a rehash there is room for the key that it was made for. That key was
counted with the others, so the array part has a place for it, or the nodes one
more than they need for the others. -/
theorem rehash_spec (S : t.Sound H) {ek : TValue} (nonnil : ek ≠ .nil)
    (number : ek ≠ .number .nan) (absent : t.lookup H ek = .nil) {cover : List TValue}
    (covers : ∀ k, t.lookup H k ≠ .nil → k ∈ cover) (few : cover.length < 2 ^ MAXBITS) :
    ∃ t', rehash H t ek = .ok t' ∧ t'.Sound H ∧ t'.lookup H = t.lookup H ∧
      ∃ t'' slot, luaHSetWith H noPlace t' ek = .ok (t'', slot) ∧ SlotFor H t' ek t'' slot := by
  have new : ek ∉ valueKeys t := fun mem => lookup_valueKeys S mem absent
  obtain ⟨na, n, step, found⟩ := rehash_eq S ek
  have best := found new
  have small := best.le_MAXASIZE
  have counts := length_beyond (H := H) (ek :: valueKeys t) small
  rw [← best.count] at counts
  have sub := (nodeKeys_resizeEntries (H := H) (t := t) n).length_le
  have most := valueKeys_length_le S covers
  have split : ((ek :: valueKeys t).filter (beyond H n)).length =
      ((valueKeys t).filter (beyond H n)).length + if beyond H n ek then 1 else 0 := by
    rw [List.filter_cons]
    split_ifs <;> rfl
  obtain ⟨t', result, resized⟩ :=
    resize_spec S n ((ek :: valueKeys t).length - na) small
      (by
        rw [List.length_cons]
        omega)
      (by omega)
  have sound := resized.sound
  have size := resized.sizearray
  have nodes := resized.room
  refine ⟨t', step.trans result, sound, resized.lookup, ?_⟩
  rcases luaHSetWith_spec sound nonnil number noPlace with done | ⟨-, unplaced, full⟩
  · exact done
  · -- the node vector was made with a place for the key
    exfalso
    have outside : beyond H n ek = true := by
      rw [← size]
      exact beyond_iff.mpr fun inside => unplaced _ ((located_inArray sound inside _).mpr rfl)
    rw [if_pos outside] at split
    rcases full with real | full
    · have none := resized.dummy real
      omega
    · obtain ⟨i, below, idle⟩ := sound.scatter.exists_idle
        (nodeKeys H n (resizeEntries t n))
        (fun i used => by
          obtain ⟨k, held⟩ := resized.clean i used
          exact ⟨k, resized.keys i k held, held⟩)
        (by
          rw [sound.nodes]
          omega)
      rw [full i (sound.nodes ▸ below)] at idle
      cases idle

/-- A pointer for writing is always given, after one rehash at most. The map is
as it was; the value is for the caller to write. -/
theorem luaHSet_spec (S : t.Sound H) {key : TValue} (nonnil : key ≠ .nil)
    (number : key ≠ .number .nan) {cover : List TValue}
    (covers : ∀ k, t.lookup H k ≠ .nil → k ∈ cover) (few : cover.length < 2 ^ MAXBITS) :
    ∃ t' slot, luaHSet H t key = .ok (t', slot) ∧ t'.Sound H ∧ t'.Located H key slot ∧
      t'.lookup H = t.lookup H := by
  rcases luaHSetWith_spec S nonnil number (growAndSet H) with
    ⟨t', slot, result, opened⟩ | ⟨result, absent, full⟩
  · exact ⟨t', slot, result, opened.sound, opened.located, opened.lookup⟩
  -- the search for a free place has gone down to 0
  · have sound : Sound H { t with lastfree := 0 } := {
      S with
      free_le := Nat.zero_le _
      taken := by
        intro real i _ below
        rcases full with dummy | all
        · rw [show t.dummy = false from real] at dummy
          cases dummy
        · exact all i below
      isdummy := by
        intro dummy
        obtain ⟨bits, -, unused⟩ := S.isdummy dummy
        exact ⟨bits, rfl, unused⟩ }
    have none := lookup_of_absent S absent
    obtain ⟨t', grown, sound', lookup, t'', slot, again, opened⟩ :=
      rehash_spec sound nonnil number none covers few
    refine ⟨t'', slot, ?_, opened.sound, opened.located, opened.lookup.trans lookup⟩
    rw [luaHSet, result, growAndSet, grown]
    exact again

/-! ### The size that is chosen -/

/-- Every key with a value is among the keys that are counted. -/
theorem mem_valueKeys (S : t.Sound H) {k : TValue} :
    k ∈ valueKeys t ↔ t.lookup H k ≠ .nil := by
  constructor
  · exact lookup_valueKeys S
  · intro value
    by_cases inside : t.InArray H k
    · obtain ⟨m, same, index, -⟩ := arrayindex_pos inside.1
      have range := inside
      rw [InArray, index, sizearray] at range
      refine List.mem_map.mpr ⟨(k, t.lookup H k), List.mem_append_left _ ?_, rfl⟩
      refine mem_sliceEntries.mpr ⟨(m - 1).toNat, by omega, ?_, ?_, value⟩
      · have whole : ((0 + (m - 1).toNat + 1 : Nat) : Int) = m := by omega
        rw [same]
        simp only [TValue.number.injEq, LuaNumber.fin.injEq]
        exact_mod_cast whole.symm
      · rw [lookup_inArray S inside, index]
    · obtain ⟨i, next, cell⟩ := (lookup_outside S inside value).mp rfl
      have below := Pool.lt_bound cell
      rw [S.nodes] at below
      refine List.mem_map.mpr ⟨(k, t.lookup H k), List.mem_append_right _ ?_, rfl⟩
      exact mem_nodeEntries.mpr ⟨value, i, below, next, cell⟩

/-- How many of the integer keys up to `n` have a value, the new key among them. -/
def inUse (H : Hashes) (t : HashTable) (ek : TValue) (n : Nat) : Nat :=
  (List.range' 1 n).countP fun k =>
    ek = .number (.fin (k : Nat)) ∨ t.lookup H (.number (.fin (k : Nat))) ≠ .nil

/-- The indices that are counted up to `n` are those in use. -/
theorem countP_candidates (S : t.Sound H) {ek : TValue} (absent : ek ∉ valueKeys t) {n : Nat}
    (small : n ≤ MAXASIZE) :
    (candidates H (ek :: valueKeys t)).countP (· ≤ n) = inUse H t ek n := by
  have max : MAXASIZE = 2 ^ 26 := rfl
  rw [inUse, List.countP_eq_length_filter, List.countP_eq_length_filter]
  refine List.Perm.length_eq ((List.perm_ext_iff_of_nodup ?_ ?_).mpr fun c => ?_)
  · exact (candidates_nodup (List.nodup_cons.mpr ⟨absent, valueKeys_nodup S⟩)).filter _
  · exact (List.nodup_range' 1).filter _
  · simp only [List.mem_filter, candidates, List.mem_filterMap, candidate_eq_some,
      decide_eq_true_eq, List.mem_range'_1, List.mem_cons, mem_valueKeys S]
    constructor
    · rintro ⟨⟨k, known, index, pos, -⟩, le⟩
      obtain ⟨m, same, index', -⟩ := arrayindex_pos (show 0 < arrayindex H k by omega)
      have whole : m = (c : Int) := by omega
      rw [same, whole] at known
      refine ⟨by omega, known.imp (fun h => h.symm.trans (by simp)) fun h => ?_⟩
      simpa using h
    · rintro ⟨range, known⟩
      refine ⟨⟨.number (.fin (c : Nat)), known.imp Eq.symm id, ?_, by omega, by omega⟩, by omega⟩
      exact (arrayindex_number (by omega)).mpr ⟨by simp, by omega⟩

/-- What a rehash makes of a table: the array part is the largest of which more
than half is in use, and the table has at most twice as many places as it needs.
-/
theorem rehash_balanced (S : t.Sound H) {ek : TValue} (absent : t.lookup H ek = .nil)
    {cover : List TValue} (covers : ∀ k, t.lookup H k ≠ .nil → k ∈ cover)
    (few : cover.length < 2 ^ MAXBITS) :
    ∃ t', rehash H t ek = .ok t' ∧ t'.Sound H ∧ t'.lookup H = t.lookup H ∧
      (t'.sizearray = 0 ∨ (∃ i ≤ MAXBITS, t'.sizearray = 2 ^ i) ∧
        t'.sizearray / 2 < inUse H t ek t'.sizearray) ∧
      (∀ j ≤ MAXBITS, t'.sizearray < 2 ^ j → inUse H t ek (2 ^ j) ≤ 2 ^ j / 2) ∧
      t'.sizearray + t'.sizenode ≤ 2 * (cover.length + 1) + 1 := by
  have new : ek ∉ valueKeys t := fun mem => lookup_valueKeys S mem absent
  obtain ⟨na, n, step, found⟩ := rehash_eq S ek
  have best := found new
  have small := best.le_MAXASIZE
  have counts := length_beyond (H := H) (ek :: valueKeys t) small
  rw [← best.count] at counts
  have sub := (nodeKeys_resizeEntries (H := H) (t := t) n).length_le
  have most := valueKeys_length_le S covers
  have split : ((valueKeys t).filter (beyond H n)).length ≤
      ((ek :: valueKeys t).filter (beyond H n)).length :=
    ((List.sublist_cons_self _ _).filter _).length_le
  obtain ⟨t', result, resized⟩ := resize_spec S n ((ek :: valueKeys t).length - na) small
    (by
      rw [List.length_cons]
      omega)
    (by omega)
  have count : na = inUse H t ek n := best.count.trans (countP_candidates S new small)
  refine ⟨t', step.trans result, resized.sound, resized.lookup, ?_, ?_, ?_⟩
  · rw [resized.sizearray, ← count]
    rcases best.power with zero | power
    · exact .inl zero
    · exact best.half.imp_right fun half => ⟨power, half⟩
  · intro j le above
    rw [resized.sizearray] at above
    rw [← countP_candidates S new (Nat.pow_le_pow_right (by decide) le)]
    exact best.largest j above
  · have half := best.half
    have tight := resized.tight
    rw [resized.sizearray]
    rw [List.length_cons] at counts tight
    omega

end Grow

end ProfiLua
