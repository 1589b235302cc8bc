import ProfiLua.Table.Grow

/-!
Traversals (`luaH_next`).

The entries are numbered, those of the array part first. A traversal holds no
number, only the last key, and finds its number again for every step. Between
two steps the program may assign to fields that are there, and the collector may
mark the keys of entries without a value as dead. Neither changes the number of
a key (`findindex_assign`, `findindex_removeentry`), so no key is visited twice,
and none that keeps a value is left out (`traversal`).
-/

namespace ProfiLua

open Program HashTable

/-- "check whether `key' is somewhere in the chain"; it "may be dead already, but
it is ok to use it in `next'". -/
def NodeKey.isKey (n : NodeKey) (key : TValue) : Bool :=
  n.rawequal key || match n with
    | .dead k => key.iscollectable && k = key
    | _ => false

section Next

variable (H : Hashes) (t : HashTable)

/-- The number of a key; -1 for nil, the beginning of a traversal. -/
def findindex (key : TValue) : TableM Int :=
  if key = .nil then .ok (-1)
  else
    let i := arrayindex H key
    if 0 < i ∧ i ≤ t.sizearray then .ok (i - 1)
    else
      match t.node.find (fun e => e.key.isKey key) t.node.bound
          (some (t.mainposition H key)) with
      | some (some n) => .ok (n + t.sizearray : Nat)
      | some none => .error .invalidKey
      | none => .error .fault

/-- "try first array part", from index `i` on. -/
def nextArray : Nat → Nat → Option (TValue × TValue)
  | 0, _ => none
  | rounds + 1, i =>
      let v := t.array.getD i .nil
      if v ≠ .nil then some (.number (.fin (i + 1 : Nat)), v) else nextArray rounds (i + 1)

/-- "then hash part", from node `i` on. -/
def nextNode : Nat → Nat → TableM (Option (TValue × TValue))
  | 0, _ => .ok none
  | rounds + 1, i =>
      match t.node.cell i with
      | none => .error .fault
      | some n =>
          if n.val.val ≠ .nil then
            match n.val.key with
            | .tvk k => .ok (some (k, n.val.val))
            | _ => .error .fault
          else nextNode rounds (i + 1)

/-- The entry after that of a key. -/
def luaHNext (key : TValue) : TableM (Option (TValue × TValue)) := do
  let i := ((← findindex H t key) + 1).toNat
  match nextArray t (t.sizearray - i) i with
  | some e => return some e
  | none => nextNode t (t.sizenode - (i - t.sizearray)) (i - t.sizearray)

end Next

/-! ### The numbers of the entries -/

section Numbers

variable {H : Hashes} {t : HashTable}

/-- The entry with a number, if it has a value. -/
def entryAt (t : HashTable) (n : Nat) : Option (TValue × TValue) :=
  if n < t.sizearray then
    let v := t.array.getD n .nil
    if v ≠ .nil then some (.number (.fin (n + 1 : Nat)), v) else none
  else
    match t.node.cell (n - t.sizearray) with
    | some ⟨⟨.tvk k, v⟩, _⟩ => if v ≠ .nil then some (k, v) else none
    | _ => none

/-- An entry with a number is what is found under its key. -/
theorem entryAt_lookup (S : t.Sound H) {m : Nat} {k v : TValue}
    (entry : entryAt t m = some (k, v)) : t.lookup H k = v ∧ v ≠ .nil ∧ k ≠ .nil := by
  simp only [entryAt] at entry
  split_ifs at entry with inArray value
  · simp only [Option.some.injEq, Prod.mk.injEq] at entry
    obtain ⟨rfl, rfl⟩ := entry
    have max : MAXASIZE = 2 ^ 26 := rfl
    have small := S.sizearray_le
    have index : arrayindex H (.number (.fin (m + 1 : Nat))) = (m + 1 : Nat) :=
      (arrayindex_number (by omega)).mpr ⟨by simp, by omega⟩
    have inside : t.InArray H (.number (.fin (m + 1 : Nat))) := by
      rw [InArray, index]
      omega
    have place : (((m + 1 : Nat) : Int) - 1).toNat = m := by omega
    refine ⟨?_, value, by simp⟩
    rw [lookup_inArray S inside, index, place]
  · split at entry
    · rename_i k' v' next cell
      split_ifs at entry with value
      simp only [Option.some.injEq, Prod.mk.injEq] at entry
      obtain ⟨rfl, rfl⟩ := entry
      have held : t.keyAt (m - t.sizearray) = some k' := keyAt_eq_some.mpr ⟨_, cell, rfl⟩
      exact ⟨(lookup_outside S (S.outside _ _ held) value).mpr ⟨_, next, cell⟩, value,
        (S.keyable _ _ held).1⟩
    · cases entry

/-- Every key with a value has a number, in the array part or in the nodes. -/
theorem exists_entryAt (S : t.Sound H) {k : TValue} (value : t.lookup H k ≠ .nil) :
    ∃ m, entryAt t m = some (k, t.lookup H k) := by
  by_cases inside : t.InArray H k
  · obtain ⟨i, same, index, -⟩ := arrayindex_pos inside.1
    have range := inside
    rw [InArray, index] at range
    have number : k = .number (.fin ((i - 1).toNat + 1 : Nat)) := by
      have whole : (((i - 1).toNat + 1 : Nat) : Int) = i := by omega
      rw [same]
      simp only [TValue.number.injEq, LuaNumber.fin.injEq]
      exact_mod_cast whole.symm
    have found := lookup_inArray S inside
    rw [index] at found
    refine ⟨(i - 1).toNat, ?_⟩
    simp only [entryAt]
    rw [if_pos (by omega), ← found, if_pos value, ← number]
  · obtain ⟨i, next, cell⟩ := (lookup_outside S inside value).mp rfl
    refine ⟨t.sizearray + i, ?_⟩
    simp only [entryAt, if_neg (by omega : ¬ t.sizearray + i < t.sizearray),
      Nat.add_sub_cancel_left, cell]
    rw [if_pos value]

/-- The comparison of `luaH_next` finds a key that is there, or one that was
there and is dead. -/
theorem isKey_sound {e : NodeEntry} {k : TValue} (nonnil : k ≠ .nil) (hit : e.key.isKey k = true) :
    nodeLabels.key e = some k ∨ nodeLabels.former e = some k := by
  rw [nodeLabels_key_iff]
  cases h : e.key with
  | nil =>
      simp only [h, NodeKey.isKey, NodeKey.rawequal, Bool.or_false] at hit
      exact absurd (eq_of_rawequal hit).symm nonnil
  | tvk k' =>
      simp only [h, NodeKey.isKey, NodeKey.rawequal, Bool.or_false] at hit
      exact .inl (congrArg NodeKey.tvk (eq_of_rawequal hit))
  | dead k' =>
      simp only [h, NodeKey.isKey, NodeKey.rawequal, Bool.false_or, Bool.and_eq_true,
        decide_eq_true_eq] at hit
      right
      simp only [nodeLabels, h, hit.2]

/-- The number of an entry is found from its key, so a traversal can go on from
the key alone. -/
theorem findindex_entry (S : t.Sound H) {m : Nat} {k v : TValue}
    (entry : entryAt t m = some (k, v)) : findindex H t k = .ok m := by
  have nonnil := (entryAt_lookup S entry).2.2
  simp only [entryAt] at entry
  split_ifs at entry with inArray value
  · simp only [Option.some.injEq, Prod.mk.injEq] at entry
    obtain ⟨rfl, -⟩ := entry
    have max : MAXASIZE = 2 ^ 26 := rfl
    have small := S.sizearray_le
    have index : arrayindex H (.number (.fin (m + 1 : Nat))) = (m + 1 : Nat) :=
      (arrayindex_number (by omega)).mpr ⟨by simp, by omega⟩
    simp only [findindex, if_neg nonnil, index]
    rw [if_pos (by omega)]
    simp
  · split at entry
    · rename_i k' v' next cell
      split_ifs at entry
      simp only [Option.some.injEq, Prod.mk.injEq] at entry
      obtain ⟨rfl, -⟩ := entry
      have held : t.keyAt (m - t.sizearray) = some k' := keyAt_eq_some.mpr ⟨_, cell, rfl⟩
      have outside := S.outside _ _ held
      have number := (S.keyable _ _ held).2
      have walk := S.scatter.find_first (fun e => e.key.isKey k') held
        (fun e key => by
          rw [nodeLabels_key_iff] at key
          have equal : luaORawequalObj k' k' = true := (ProfiLua.rawequal_iff number).mpr rfl
          simp only [key, NodeKey.isKey, NodeKey.rawequal, equal, Bool.true_or])
        (fun e hit => isKey_sound nonnil hit)
      rw [InArray] at outside
      simp only [findindex, if_neg nonnil, if_neg outside, walk]
      congr 2
      omega
    · cases entry

/-- A search for the number of a key does not see which values there are. -/
theorem findindex_congr {t' : HashTable} (size : t'.sizearray = t.sizearray)
    (bits : t'.lsizenode = t.lsizenode) (bound : t'.node.bound = t.node.bound) {key : TValue}
    (same : ∀ i, (t'.node.cell i).map (fun n => (n.val.key.isKey key, n.next)) =
      (t.node.cell i).map fun n => (n.val.key.isKey key, n.next)) :
    findindex H t' key = findindex H t key := by
  have main : t'.mainposition H key = t.mainposition H key := by
    cases key <;> simp only [mainposition, hashnum, hashmod, hashpow2, sizenode, bits]
  have walk := Pool.find_congr (fun e : NodeEntry => e.key.isKey key) same
    t.node.bound (some (t.mainposition H key))
  simp only [findindex, size, main, bound, walk]

theorem findindex_assign (t : HashTable) (slot : Slot) (v key : TValue) :
    findindex H (t.assign slot v) key = findindex H t key := by
  cases slot with
  | array i =>
      exact findindex_congr (assign_sizearray t _ v) rfl rfl fun _ => rfl
  | node i =>
      simp only [HashTable.assign]
      split
      · rename_i n cell
        apply findindex_congr
        · rfl
        · rfl
        · exact t.node.put_bound _ _
        · intro j
          by_cases ji : j = i
          · rw [ji, Pool.put_cell_self cell, cell]
            rfl
          · rw [Pool.put_cell_of_ne _ ji]
      · rfl

theorem findindex_removeentry (t : HashTable) (i : Nat) (key : TValue) :
    findindex H (t.removeentry i) key = findindex H t key := by
  unfold removeentry
  split
  · rename_i k next cell
    split_ifs with collectable
    · apply findindex_congr
      · rfl
      · rfl
      · exact t.node.put_bound _ _
      intro j
      by_cases ji : j = i
      · have same : (NodeKey.dead k).isKey key = (NodeKey.tvk k).isKey key := by
          simp only [NodeKey.isKey, NodeKey.rawequal, Bool.false_or, Bool.or_false]
          cases k <;> cases key <;>
            simp_all [TValue.iscollectable, luaORawequalObj]
        rw [ji, Pool.put_cell_self cell, cell]
        simp only [Option.map_some, same]
      · rw [Pool.put_cell_of_ne _ ji]
    · rfl
  · rfl

/-! ### One step -/

/-- The next entry of the array part, or there is none from here on. -/
theorem nextArray_spec {rounds i : Nat} (last : i + rounds = t.sizearray) :
    (∃ m e, nextArray t rounds i = some e ∧ i ≤ m ∧ m < t.sizearray ∧ entryAt t m = some e ∧
      ∀ j, i ≤ j → j < m → entryAt t j = none) ∨
    nextArray t rounds i = none ∧ ∀ j, i ≤ j → j < t.sizearray → entryAt t j = none := by
  induction rounds generalizing i with
  | zero => exact .inr ⟨rfl, fun j low high => by omega⟩
  | succ rounds ih =>
      have here : entryAt t i = if t.array.getD i .nil ≠ .nil then
          some (.number (.fin (i + 1 : Nat)), t.array.getD i .nil) else none := by
        simp only [entryAt]
        rw [if_pos (by omega)]
      simp only [nextArray]
      split_ifs with value
      · rw [if_pos value] at here
        exact .inl ⟨i, _, rfl, le_refl i, by omega, here, fun j low high => by omega⟩
      · rw [if_neg value] at here
        rcases ih (i := i + 1) (by omega) with ⟨m, e, found, low, high, entry, none⟩ | ⟨found, none⟩
        · refine .inl ⟨m, e, found, by omega, high, entry, fun j lowJ highJ => ?_⟩
          by_cases first : j = i
          · rw [first, here]
          · exact none j (by omega) highJ
        · refine .inr ⟨found, fun j lowJ highJ => ?_⟩
          by_cases first : j = i
          · rw [first, here]
          · exact none j (by omega) highJ

/-- The numbers of the nodes come behind those of the array part. -/
theorem entryAt_node {i : Nat} {n : Node NodeEntry}
    (cell : t.node.cell i = some n) :
    entryAt t (t.sizearray + i) = if n.val.val ≠ .nil then
      (match n.val.key with
        | .tvk k => some (k, n.val.val)
        | _ => none) else none := by
  obtain ⟨⟨k, v⟩, next⟩ := n
  simp only [entryAt, if_neg (by omega : ¬ t.sizearray + i < t.sizearray),
    Nat.add_sub_cancel_left, cell]
  cases k with
  | tvk k => rfl
  | _ => simp

/-- The next entry of the nodes, or there is none from here on. -/
theorem nextNode_spec (S : t.Sound H) {rounds i : Nat} (last : i + rounds = t.sizenode) :
    (∃ m e, nextNode t rounds i = .ok (some e) ∧ t.sizearray + i ≤ m ∧
      m < t.sizearray + t.sizenode ∧ entryAt t m = some e ∧
      ∀ j, t.sizearray + i ≤ j → j < m → entryAt t j = none) ∨
    nextNode t rounds i = .ok none ∧
      ∀ j, t.sizearray + i ≤ j → j < t.sizearray + t.sizenode → entryAt t j = none := by
  induction rounds generalizing i with
  | zero => exact .inr ⟨rfl, fun j low high => by omega⟩
  | succ rounds ih =>
      obtain ⟨n, cell⟩ := Option.ne_none_iff_exists'.mp
        (S.scatter.allocated i (by rw [S.nodes]; omega))
      have here := entryAt_node cell
      simp only [nextNode, cell]
      by_cases value : n.val.val ≠ .nil
      · obtain ⟨k, key⟩ := S.live i n cell value
        rw [if_pos value, key] at here
        rw [if_pos value, key]
        exact .inl ⟨t.sizearray + i, _, rfl, le_refl _, by omega, here, fun j low high => by omega⟩
      · rw [if_neg value] at here
        rw [if_neg value]
        rcases ih (i := i + 1) (by omega) with ⟨m, e, found, low, high, entry, none⟩ | ⟨found, none⟩
        · refine .inl ⟨m, e, found, by omega, high, entry, fun j lowJ highJ => ?_⟩
          by_cases first : j = t.sizearray + i
          · rw [first, here]
          · exact none j (by omega) highJ
        · refine .inr ⟨found, fun j lowJ highJ => ?_⟩
          by_cases first : j = t.sizearray + i
          · rw [first, here]
          · exact none j (by omega) highJ

theorem entryAt_beyond (S : t.Sound H) {m : Nat} (past : t.sizearray + t.sizenode ≤ m) :
    entryAt t m = none := by
  have none : t.node.cell (m - t.sizearray) = none :=
    t.node.fresh _ (by rw [S.nodes]; omega)
  have pos := t.sizenode_pos
  simp only [entryAt, if_neg (by omega : ¬ m < t.sizearray), none]

/-- The entry after a key is the next one that has a value. Those in between
have none. -/
theorem luaHNext_spec (S : t.Sound H) {key : TValue} {n : Nat}
    (number : findindex H t key = .ok ((n : Int) - 1)) :
    (∃ m e, luaHNext H t key = .ok (some e) ∧ n ≤ m ∧ m < t.sizearray + t.sizenode ∧
      entryAt t m = some e ∧ ∀ j, n ≤ j → j < m → entryAt t j = none) ∨
    luaHNext H t key = .ok none ∧ ∀ j, n ≤ j → entryAt t j = none := by
  have start : ((n : Int) - 1 + 1).toNat = n := by omega
  have step : luaHNext H t key = match nextArray t (t.sizearray - n) n with
      | some e => .ok (some e)
      | none => nextNode t (t.sizenode - (n - t.sizearray)) (n - t.sizearray) := by
    simp only [luaHNext, number, TableM.ok_bind, start]
    cases nextArray t (t.sizearray - n) n <;> rfl
  rw [step]
  have array : (∃ m e, nextArray t (t.sizearray - n) n = some e ∧ n ≤ m ∧ m < t.sizearray ∧
      entryAt t m = some e ∧ ∀ j, n ≤ j → j < m → entryAt t j = none) ∨
      nextArray t (t.sizearray - n) n = none ∧
        ∀ j, n ≤ j → j < t.sizearray → entryAt t j = none := by
    by_cases inArray : n ≤ t.sizearray
    · exact nextArray_spec (by omega)
    · rw [show t.sizearray - n = 0 by omega]
      exact .inr ⟨rfl, fun j low high => by omega⟩
  rcases array with ⟨m, e, found, low, high, entry, none⟩ | ⟨found, noneArray⟩
  · rw [found]
    exact .inl ⟨m, e, rfl, low, by omega, entry, none⟩
  · rw [found]
    simp only
    by_cases inNodes : n - t.sizearray ≤ t.sizenode
    · rcases nextNode_spec S (show n - t.sizearray + (t.sizenode - (n - t.sizearray)) = t.sizenode
        by omega) with ⟨m, e, found, low, high, entry, none⟩ | ⟨found, none⟩
      · refine .inl ⟨m, e, found, by omega, high, entry, fun j lowJ highJ => ?_⟩
        by_cases early : j < t.sizearray
        · exact noneArray j lowJ early
        · exact none j (by omega) highJ
      · refine .inr ⟨found, fun j lowJ => ?_⟩
        by_cases early : j < t.sizearray
        · exact noneArray j lowJ early
        by_cases past : t.sizearray + t.sizenode ≤ j
        · exact entryAt_beyond S past
        · exact none j (by omega) (by omega)
    · rw [show t.sizenode - (n - t.sizearray) = 0 by omega]
      refine .inr ⟨rfl, fun j lowJ => entryAt_beyond S (by omega)⟩

end Numbers

/-! ### Traversals -/

/-- What can happen while a table is traversed. -/
inductive TravelOp where
  | next
  /-- An assignment to a field that is there; nil clears it. -/
  | assign (key val : TValue)
  /-- The collector comes to a node. -/
  | removeentry (i : Nat)

/-- A traversal: the table, the key of the last entry, and the entries so far. -/
structure Travel where
  table : HashTable
  cursor : TValue
  seen : List (TValue × TValue)
  ended : Bool

/-- The beginning of a traversal. -/
def Travel.start (t : HashTable) : Travel := ⟨t, .nil, [], false⟩

section Travelling

variable (H : Hashes)

def travelStep (s : Travel) : TravelOp → TableM Travel
  | .next =>
      if s.ended then .ok s
      else do
        match ← luaHNext H s.table s.cursor with
        | some e => return { s with cursor := e.1, seen := s.seen ++ [e] }
        | none => return { s with ended := true }
  | .assign key val => do
      match ← luaHGet H s.table key with
      | some slot => return { s with table := s.table.assign slot val }
      | none => return s
  | .removeentry i => .ok { s with table := s.table.removeentry i }

def travel : Travel → List TravelOp → TableM Travel
  | s, [] => .ok s
  | s, op :: ops => do travel (← travelStep H s op) ops

/-- Something holds of every state of a traversal. -/
def Throughout (P : Travel → Prop) : Travel → List TravelOp → Prop
  | s, [] => P s
  | s, op :: ops => P s ∧ ∀ s', travelStep H s op = .ok s' → Throughout P s' ops

end Travelling

section Travelling

variable {H : Hashes} {s : Travel}

/-- The entries before number `n` have been passed. -/
structure Travelling (H : Hashes) (s : Travel) (n : Nat) : Prop where
  sound : s.table.Sound H
  number : findindex H s.table s.cursor = .ok ((n : Int) - 1)
  inside : n ≤ s.table.sizearray + s.table.sizenode
  passed : ∀ e ∈ s.seen, ∃ m < n, findindex H s.table e.1 = .ok (m : Int)
  distinct : (s.seen.map Prod.fst).Nodup

/-- What one step of a traversal does. -/
structure Travelled (H : Hashes) (s s' : Travel) (n n' : Nat) (op : TravelOp) : Prop where
  travelling : Travelling H s' n'
  size : s'.table.sizearray + s'.table.sizenode = s.table.sizearray + s.table.sizenode
  numbers : ∀ k, findindex H s'.table k = findindex H s.table k
  further : n ≤ n'
  /-- A step to the next entry ends the traversal or gets further. -/
  next : op = .next → s'.ended = true ∨ n < n'
  ended : s.ended = true → s'.ended = true
  /-- New entries are entries of the table. -/
  entries : ∀ e ∈ s'.seen, e ∈ s.seen ∨ s.table.lookup H e.1 = e.2 ∧ e.2 ≠ .nil
  /-- No key with a value is passed over. -/
  covers : ∀ k, s.table.lookup H k ≠ .nil →
    (∀ m : Nat, findindex H s.table k = .ok (m : Int) → m < n → k ∈ s.seen.map Prod.fst) →
    (s.ended = true → k ∈ s.seen.map Prod.fst) →
    (∀ m : Nat, findindex H s'.table k = .ok (m : Int) → m < n' → k ∈ s'.seen.map Prod.fst) ∧
      (s'.ended = true → k ∈ s'.seen.map Prod.fst)

/-- A step that changes neither the size of the table nor a number keeps the
place of the traversal. -/
theorem Travelling.keep {n : Nat} {op : TravelOp} (T : Travelling H s n) {t' : HashTable}
    (other : op ≠ .next) (sound : t'.Sound H)
    (size : t'.sizearray + t'.sizenode = s.table.sizearray + s.table.sizenode)
    (numbers : ∀ k, findindex H t' k = findindex H s.table k) :
    Travelled H s { s with table := t' } n n op := by
  refine ⟨⟨sound, (numbers _).trans T.number, size ▸ T.inside, ?_, T.distinct⟩, size, numbers,
    le_refl n, fun same => absurd same other, id, fun e mem => .inl mem, ?_⟩
  · intro e mem
    obtain ⟨m, below, number⟩ := T.passed e mem
    exact ⟨m, below, (numbers _).trans number⟩
  · intro k _ passed ended
    exact ⟨fun m number => passed m ((numbers k).symm.trans number), ended⟩

/-- Every step of a traversal goes well, and only one to the next entry moves
the place. -/
theorem Travelling.step {n : Nat} (T : Travelling H s n) (op : TravelOp) :
    ∃ s' n', travelStep H s op = .ok s' ∧ Travelled H s s' n n' op := by
  cases op with
  | assign key val =>
      obtain ⟨r, found, spec⟩ := luaHGet_spec T.sound key
      cases r with
      | none =>
          refine ⟨s, n, by simp only [travelStep, found, TableM.ok_bind]; rfl, ?_⟩
          exact T.keep (by simp) T.sound rfl fun _ => rfl
      | some slot =>
          refine ⟨_, n, by simp only [travelStep, found, TableM.ok_bind]; rfl, ?_⟩
          refine T.keep (by simp) (T.sound.assign ((spec slot).mp rfl) val) ?_
            (findindex_assign s.table slot val)
          simp only [assign_sizearray, sizenode, assign_lsizenode]
  | removeentry i =>
      refine ⟨_, n, rfl, T.keep (by simp) (removeentry_spec T.sound i).1 ?_
        (findindex_removeentry s.table i)⟩
      unfold removeentry
      split
      · split <;> rfl
      · rfl
  | next =>
      by_cases ended : s.ended = true
      · refine ⟨s, n, by simp only [travelStep, if_pos ended], T, rfl, fun _ => rfl, le_refl n,
          fun _ => .inl ended, id, fun e mem => .inl mem, fun k _ passed done => ⟨passed, done⟩⟩
      have numberOf : ∀ k, s.table.lookup H k ≠ .nil → ∀ m : Nat,
          findindex H s.table k = .ok (m : Int) → ∃ v, entryAt s.table m = some (k, v) := by
        intro k value m number
        obtain ⟨m', entry⟩ := exists_entryAt T.sound value
        rw [findindex_entry T.sound entry] at number
        simp only [Except.ok.injEq, Nat.cast_inj] at number
        exact ⟨_, number ▸ entry⟩
      rcases luaHNext_spec T.sound T.number with
        ⟨m, e, found, low, high, entry, skipped⟩ | ⟨found, none⟩
      · have number : findindex H s.table e.1 = .ok (m : Int) := findindex_entry T.sound entry
        have new : e.1 ∉ s.seen.map Prod.fst := by
          intro mem
          obtain ⟨e', mem', same⟩ := List.mem_map.mp mem
          obtain ⟨m', below, number'⟩ := T.passed e' mem'
          rw [same, number] at number'
          simp only [Except.ok.injEq, Nat.cast_inj] at number'
          omega
        refine ⟨{ s with cursor := e.1, seen := s.seen ++ [e] }, m + 1, ?_, ?_⟩
        · simp only [travelStep, if_neg ended, found, TableM.ok_bind]
          rfl
        · refine ⟨⟨T.sound, ?_, by simp only; omega, ?_, ?_⟩, rfl, fun _ => rfl, by omega,
            fun _ => .inr (by omega), fun done => absurd done ended, ?_, ?_⟩
          · simp only [number]
            congr 1
            omega
          · intro e' mem
            rcases List.mem_append.mp mem with old | last
            · obtain ⟨m', below, number'⟩ := T.passed e' old
              exact ⟨m', by omega, number'⟩
            · rw [List.mem_singleton.mp last]
              exact ⟨m, by omega, number⟩
          · rw [List.map_append, List.map_singleton, List.nodup_append]
            refine ⟨T.distinct, List.nodup_singleton _, ?_⟩
            intro k mem k' mem' same
            rw [List.mem_singleton] at mem'
            exact new (mem' ▸ same ▸ mem)
          · intro e' mem
            rcases List.mem_append.mp mem with old | last
            · exact .inl old
            · rw [List.mem_singleton.mp last]
              obtain ⟨lookup, value, -⟩ := entryAt_lookup T.sound entry
              exact .inr ⟨lookup, value⟩
          · intro k value passed done
            refine ⟨fun m' number' below => ?_, fun finished => absurd finished ended⟩
            rw [List.map_append, List.mem_append]
            by_cases before : m' < n
            · exact .inl (passed m' number' before)
            · obtain ⟨v, entry'⟩ := numberOf k value m' number'
              by_cases here : m' = m
              · rw [here, entry] at entry'
                cases entry'
                simp
              · rw [skipped m' (by omega) (by omega)] at entry'
                cases entry'
      · refine ⟨{ s with ended := true }, n, ?_, ?_⟩
        · simp only [travelStep, if_neg ended, found, TableM.ok_bind]
          rfl
        · refine ⟨⟨T.sound, T.number, T.inside, T.passed, T.distinct⟩, rfl, fun _ => rfl,
            le_refl n, fun _ => .inl rfl, fun _ => rfl, fun e mem => .inl mem, ?_⟩
          intro k value passed done
          refine ⟨passed, fun _ => ?_⟩
          obtain ⟨m, entry⟩ := exists_entryAt T.sound value
          refine passed m (findindex_entry T.sound entry) ?_
          by_contra later
          rw [none m (by omega)] at entry
          cases entry

/-- The number of steps to a next entry. -/
def nexts (ops : List TravelOp) : Nat := ops.countP fun | .next => true | _ => false

/-- What a whole traversal does, from any point on. By induction on the steps:
what came is kept, and what is ahead is not passed by. -/
theorem Travelling.run {n : Nat} (T : Travelling H s n) (ops : List TravelOp) :
    ∃ s' n', travel H s ops = .ok s' ∧ Travelling H s' n' ∧
      s'.table.sizearray + s'.table.sizenode = s.table.sizearray + s.table.sizenode ∧
      (s.ended = true → s'.ended = true) ∧ (s'.ended = true ∨ n + nexts ops ≤ n') ∧
      (∀ e ∈ s'.seen, e ∈ s.seen ∨ e.2 ≠ .nil ∧
        ¬ Throughout H (fun s => s.table.lookup H e.1 ≠ e.2) s ops) ∧
      ∀ k, Throughout H (fun s => s.table.lookup H k ≠ .nil) s ops →
        (∀ m : Nat, findindex H s.table k = .ok (m : Int) → m < n → k ∈ s.seen.map Prod.fst) →
        (s.ended = true → k ∈ s.seen.map Prod.fst) → s'.ended = true →
        k ∈ s'.seen.map Prod.fst := by
  induction ops generalizing s n with
  | nil =>
      exact ⟨s, n, rfl, T, rfl, id, .inr (le_refl _), fun e mem => .inl mem,
        fun k _ _ done ended => done ended⟩
  | cons op ops ih =>
      obtain ⟨s₁, n₁, step, did⟩ := T.step op
      obtain ⟨s', n', rest, T', size, ended, count, entries, covers⟩ := ih did.travelling
      refine ⟨s', n', ?_, T', size.trans did.size, fun done => ended (did.ended done), ?_, ?_, ?_⟩
      · simp only [travel, step, TableM.ok_bind]
        exact rest
      · rcases count with done | count
        · exact .inl done
        · have further := did.further
          simp only [nexts, List.countP_cons] at count ⊢
          cases op with
          | next =>
              rcases did.next rfl with done | more
              · exact .inl (ended done)
              · right
                simp only [if_true]
                omega
          | _ =>
              right
              simp only [Bool.false_eq_true, if_false]
              omega
      · intro e mem
        rcases entries e mem with mem₁ | ⟨value, later⟩
        · rcases did.entries e mem₁ with old | ⟨lookup, value⟩
          · exact .inl old
          · exact .inr ⟨value, fun always => always.1 lookup⟩
        · exact .inr ⟨value, fun always => later (always.2 s₁ step)⟩
      · intro k always passed done
        obtain ⟨passed₁, done₁⟩ := did.covers k always.1 passed done
        exact covers k (always.2 s₁ step) passed₁ done₁

/-- A traversal never fails, whatever is done to the fields that are there, and
it ends. No key comes twice, every pair that comes was an entry of the table, and
every key that kept a value has come when it is over. -/
theorem traversal {t : HashTable} (S : t.Sound H) (ops : List TravelOp) :
    ∃ s, travel H (.start t) ops = .ok s ∧ (s.seen.map Prod.fst).Nodup ∧
      (t.sizearray + t.sizenode < nexts ops → s.ended = true) ∧
      (∀ e ∈ s.seen, e.2 ≠ .nil ∧
        ¬ Throughout H (fun s => s.table.lookup H e.1 ≠ e.2) (.start t) ops) ∧
      ∀ k, Throughout H (fun s => s.table.lookup H k ≠ .nil) (.start t) ops →
        s.ended = true → k ∈ s.seen.map Prod.fst := by
  have beginning : Travelling H (.start t) 0 := by
    refine ⟨S, rfl, Nat.zero_le _, fun e mem => ?_, List.nodup_nil⟩
    cases mem
  obtain ⟨s, n, run, T, size, -, count, entries, covers⟩ := beginning.run ops
  refine ⟨s, run, T.distinct, fun enough => ?_, fun e mem => ?_, fun k always ended => ?_⟩
  · rcases count with done | count
    · exact done
    · have inside := T.inside
      simp only [Travel.start] at size
      omega
  · rcases entries e mem with none | entry
    · cases none
    · exact entry
  · refine covers k always (fun m _ below => absurd below (Nat.not_lt_zero m)) ?_ ended
    intro done
    cases done

end Travelling

end ProfiLua
