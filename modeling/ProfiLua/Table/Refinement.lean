import ProfiLua.Program.Machine
import ProfiLua.Table.Length
import ProfiLua.Table.Next

/-!
A table is a map.

`tableMachine` is a table as the C code keeps it, under every operation that
reads or writes it: the searches, the assignments, what the collector does to
entries without a value, and the growth of the array part for a table
constructor. `mapMachine` is the abstract `Table` the rest of the model works
with. They give the same answers to every run (`table_refines`), whatever the
hash functions are.
-/

namespace ProfiLua

open Program HashTable

/-- `luaH_setstr`. -/
def luaHSetstr (H : Hashes) (t : HashTable) (key : Bytes) : TableM (HashTable × Slot) := do
  match ← luaHGetstr H t key with
  | some slot => return (t, slot)
  | none => newkey H (growAndSet H) t (.string key)

inductive TableOp where
  | get (key : TValue)
  | getnum (key : Int32)
  | getstr (key : Bytes)
  | set (key val : TValue)
  | setnum (key : Int32) (val : TValue)
  | setstr (key : Bytes) (val : TValue)
  /-- The collector comes to a node. -/
  | removeentry (i : Nat)
  /-- `OP_SETLIST`: "pre-alloc it at once". -/
  | prealloc (last : Nat)

/-- The value a search points to. -/
def readSlot (t : HashTable) (found : TableM (Option Slot)) : HashTable × TableM TValue :=
  (t, found.map fun r => match r with
    | some slot => t.value slot
    | none => .nil)

/-- An assignment. An error of the key leaves the table as it was; what it is
after "table overflow" is not modelled, and no run below comes to one. -/
def writeSlot (t : HashTable) (val : TValue) (opened : TableM (HashTable × Slot)) :
    HashTable × TableM TValue :=
  match opened with
  | .ok (t', slot) => (t'.assign slot val, .ok .nil)
  | .error e => (t, .error e)

/-- A table as the C code keeps it. -/
def tableMachine (H : Hashes) : Machine HashTable TableOp (TableM TValue) where
  step t
    | .get key => readSlot t (luaHGet H t key)
    | .getnum key => readSlot t (luaHGetnum H t key.toInt)
    | .getstr key => readSlot t (luaHGetstr H t key)
    | .set key val => writeSlot t val (luaHSet H t key)
    | .setnum key val => writeSlot t val (luaHSetnum H t key.toInt)
    | .setstr key val => writeSlot t val (luaHSetstr H t key)
    | .removeentry i => (t.removeentry i, .ok .nil)
    | .prealloc last =>
        if t.sizearray < last then
          match luaHResizearray H t last with
          | .ok t' => (t', .ok .nil)
          | .error e => (t, .error e)
        else (t, .ok .nil)

/-- An assignment to a map. -/
def Table.assign (T : Table) (key val : TValue) : Table × TableM TValue :=
  if key = .nil then (T, .error .indexNil)
  else if key = .number .nan then (T, .error .indexNaN)
  else (T.store key val, .ok .nil)

/-- The abstract table: keys to values. -/
def mapMachine : Machine Table TableOp (TableM TValue) where
  step T
    | .get key => (T, .ok (T.node key))
    | .getnum key => (T, .ok (T.node (.number (.fin key.toInt))))
    | .getstr key => (T, .ok (T.node (.string key)))
    | .set key val => T.assign key val
    | .setnum key val => T.assign (.number (.fin key.toInt)) val
    | .setstr key val => T.assign (.string key) val
    | .removeentry _ => (T, .ok .nil)
    | .prealloc _ => (T, .ok .nil)

section Refinement

variable {H : Hashes} {t : HashTable}

/-- A table and the map it is, with room for `n` more keys. -/
structure Represents (H : Hashes) (n : Nat) (t : HashTable) (T : Table) : Prop where
  sound : t.Sound H
  lookup : t.lookup H = T.node
  room : ∃ cover : List TValue,
    (∀ k, t.lookup H k ≠ .nil → k ∈ cover) ∧ cover.length + n ≤ 2 ^ MAXBITS

/-- A larger array part keeps the map: the nodes are inserted again, and what
finds its place in the array goes there. -/
theorem luaHResizearray_spec (S : t.Sound H) {last : Nat} (grows : t.sizearray < last)
    (small : last ≤ MAXASIZE) :
    ∃ t', luaHResizearray H t last = .ok t' ∧ t'.Sound H ∧ t'.lookup H = t.lookup H ∧
      t'.sizearray = last := by
  have entries : resizeEntries t last = nodeEntries t.node t.sizenode := by
    rw [resizeEntries, List.drop_of_length_le grows.le]
    rfl
  have few : (nodeKeys H last (resizeEntries t last)).length ≤
      (nodeEntries t.node t.sizenode).length := by
    rw [entries, nodeKeys]
    exact (List.length_filter_le _ _).trans (by rw [List.length_map])
  have size : t.sizenode ≤ 2 ^ MAXBITS := Nat.pow_le_pow_right (by decide) S.lsizenode_le
  obtain ⟨t', result, resized⟩ := resize_spec S last
    (if t.dummy then 0 else t.sizenode) small
    (by
      split_ifs
      · exact Nat.zero_le _
      · exact size)
    (by
      refine few.trans ?_
      split_ifs with dummy
      · obtain ⟨bits, -, unused⟩ := S.isdummy dummy
        simp [sizenode, bits, nodeEntries, unused, NodeEntry.unused]
      · exact nodeEntries_length_le _ _)
  exact ⟨t', result, resized.sound, resized.lookup, resized.sizearray⟩

theorem Represents.mono {n m : Nat} {T : Table} (R : Represents H n t T) (le : m ≤ n) :
    Represents H m t T := by
  obtain ⟨cover, covers, few⟩ := R.room
  exact ⟨R.sound, R.lookup, cover, covers, by omega⟩

/-- A search reads the map and leaves the table as it was. -/
theorem Represents.read {n : Nat} {T : Table} (R : Represents H n t T) {key : TValue}
    {found : TableM (Option Slot)}
    (search : ∃ r, found = .ok r ∧ ∀ slot, r = some slot ↔ t.Located H key slot) :
    readSlot t found = (t, .ok (T.node key)) := by
  obtain ⟨r, rfl, spec⟩ := search
  rw [← R.lookup]
  cases r with
  | some slot =>
      rw [lookup_of_located R.sound ((spec slot).mp rfl)]
      rfl
  | none =>
      rw [lookup_of_absent R.sound fun slot place => by cases (spec slot).mpr place]
      rfl

/-- A write through the pointer `luaH_set` gives. It may take the room of one
key; a key that is none is the same error in both. -/
theorem Represents.write {n : Nat} {T : Table} (R : Represents H (n + 1) t T)
    (key val : TValue) :
    Represents H n (writeSlot t val (luaHSet H t key)).1 (T.assign key val).1 ∧
      (writeSlot t val (luaHSet H t key)).2 = (T.assign key val).2 := by
  by_cases nonnil : key = .nil
  · subst nonnil
    simp only [Table.assign, if_true]
    exact ⟨R.mono (Nat.le_succ n), rfl⟩
  by_cases number : key = .number .nan
  · subst number
    obtain ⟨r, found, spec⟩ := luaHGet_spec R.sound (.number .nan)
    have none : r = none := by
      by_contra some
      obtain ⟨slot, rfl⟩ := Option.ne_none_iff_exists'.mp some
      have place := (spec slot).mp rfl
      cases slot with
      | array i =>
          have index := place.1
          obtain ⟨k, same, -⟩ := arrayindex_pos (show 0 < arrayindex H (.number .nan) by omega)
          cases same
      | node i => exact (R.sound.keyable i _ place).2 rfl
    have refused : luaHSet H t (.number .nan) = .error .indexNaN := by
      simp only [luaHSet, luaHSetWith, found, none, TableM.ok_bind]
    simp only [refused, writeSlot, Table.assign]
    exact ⟨R.mono (Nat.le_succ n), rfl⟩
  · obtain ⟨cover, covers, few⟩ := R.room
    obtain ⟨t', slot, result, sound, place, lookup⟩ :=
      luaHSet_spec R.sound nonnil number covers (by omega)
    simp only [result, writeSlot, Table.assign, if_neg nonnil, if_neg number, and_true]
    have updated := lookup_assign sound place val
    rw [lookup, R.lookup] at updated
    refine ⟨sound.assign place val, updated, key :: cover, fun k held => ?_, ?_⟩
    · by_cases same : k = key
      · rw [same]
        exact List.mem_cons_self
      · rw [updated, Function.update_of_ne same, ← R.lookup] at held
        exact List.mem_cons_of_mem _ (covers k held)
    · rw [List.length_cons]
      omega

/-- Operations that a run may contain: an array part that is asked for is not
larger than the largest. -/
def TableOp.Allowed : TableOp → Prop
  | .prealloc last => last ≤ MAXASIZE
  | _ => True

/-- One operation on the table is the operation on the map, and takes the room
of one key at most. -/
theorem Represents.step (n : Nat) (t : HashTable) (T : Table) (op : TableOp)
    (R : Represents H (n + 1) t T) (allowed : op.Allowed) :
    Represents H n ((tableMachine H).step t op).1 (mapMachine.step T op).1 ∧
      ((tableMachine H).step t op).2 = (mapMachine.step T op).2 := by
  have less := R.mono (Nat.le_succ n)
  have range (k : Int32) : -2 ^ 31 ≤ k.toInt ∧ k.toInt < 2 ^ 31 := ⟨k.le_toInt, k.toInt_lt⟩
  cases op with
  | get key =>
      simp only [tableMachine, mapMachine, R.read (luaHGet_spec R.sound key)]
      exact ⟨less, trivial⟩
  | getnum key =>
      simp only [tableMachine, mapMachine,
        R.read (luaHGetnum_spec R.sound (range key).1 (range key).2)]
      exact ⟨less, trivial⟩
  | getstr key =>
      simp only [tableMachine, mapMachine, R.read (luaHGetstr_spec R.sound key)]
      exact ⟨less, trivial⟩
  | set key val => exact R.write key val
  | setnum key val =>
      have same : luaHSetnum H t key.toInt = luaHSet H t (.number (.fin key.toInt)) :=
        luaHSetnumWith_eq _ (range key).1 (range key).2
      simp only [tableMachine, mapMachine, same]
      exact R.write _ val
  | setstr key val =>
      have same : luaHSetstr H t key = luaHSet H t (.string key) := rfl
      simp only [tableMachine, mapMachine, same]
      exact R.write _ val
  | removeentry i =>
      obtain ⟨sound, lookup⟩ := removeentry_spec R.sound i
      obtain ⟨cover, covers, few⟩ := less.room
      exact ⟨⟨sound, lookup.trans R.lookup, cover,
          by simpa only [tableMachine, lookup] using covers,
        few⟩, rfl⟩
  | prealloc last =>
      simp only [tableMachine, mapMachine]
      split_ifs with grows
      · obtain ⟨t', result, sound, lookup, -⟩ := luaHResizearray_spec R.sound grows allowed
        obtain ⟨cover, covers, few⟩ := less.room
        simp only [result]
        exact ⟨⟨sound, lookup.trans R.lookup, cover, by simpa only [lookup] using covers, few⟩,
          trivial⟩
      · exact ⟨less, rfl⟩

/-- A new table is the empty map, with room for as many keys as the largest
vector has nodes. -/
theorem luaHNew_spec {narray nhash : Nat} (smallA : narray ≤ MAXASIZE)
    (smallH : nhash ≤ 2 ^ MAXBITS) :
    ∃ t, luaHNew narray nhash = .ok t ∧ Represents H (2 ^ MAXBITS) t .empty := by
  obtain ⟨t, made, array, vacant⟩ := setnodevector_spec (H := H)
    (t := HashTable.setarrayvector
      { array := [], lsizenode := 0, node := Pool.vector 1 .unused, dummy := true, lastfree := 0 }
      narray) smallH
  have nils : t.array = List.replicate narray .nil := by
    rw [array]
    simp [setarrayvector, sizearray]
  have V := vacant t.array (by rw [nils, List.length_replicate]; exact smallA)
  have lookup : ∀ k, t.lookup H k = .nil := by
    intro k
    by_cases inside : t.InArray H k
    · rw [lookup_inArray V.sound inside, nils]
      simp only [List.getD_eq_getElem?_getD, List.getElem?_replicate]
      split <;> rfl
    · refine lookup_of_absent V.sound fun slot place => ?_
      obtain ⟨i, -, held⟩ := (located_outside inside slot).mp place
      exact V.keyless i k held
  refine ⟨t, made, V.sound, funext lookup, [], fun k held => absurd (lookup k) held, ?_⟩
  simp

/-- The table after a run is the map after it, and both have answered the same.
-/
theorem run_represents (H : Hashes) {narray nhash : Nat} (smallA : narray ≤ MAXASIZE)
    (smallH : nhash ≤ 2 ^ MAXBITS) {ops : List TableOp} (few : ops.length ≤ 2 ^ MAXBITS)
    (allowed : ∀ op ∈ ops, op.Allowed) :
    ∃ t, luaHNew narray nhash = .ok t ∧
      Represents H (2 ^ MAXBITS - ops.length) ((tableMachine H).run t ops).1
        (mapMachine.run .empty ops).1 ∧
      ((tableMachine H).run t ops).2 = (mapMachine.run .empty ops).2 := by
  obtain ⟨t, made, R⟩ := luaHNew_spec (H := H) smallA smallH
  have start : Represents H (2 ^ MAXBITS - ops.length + ops.length) t .empty := by
    rwa [Nat.sub_add_cancel few]
  exact ⟨t, made, Machine.refines Represents.step start allowed⟩

/-! ### Tables after a run -/

/-- Hash functions that give every key the same main position. -/
def collidingHashes : Hashes where
  number2integer _ := 0
  int _ := 0
  number _ := 0
  string _ := 0
  pointer _ := 0

/-- New keys, an array part, a key that is no key, and one that is cleared. -/
def collidingRun : List TableOp :=
  [.setstr (lit "a") (.boolean true), .set (.table 3) (.boolean false),
    .setnum 1 (.string (lit "one")), .prealloc 4, .set .nil .nil, .set (.table 3) .nil,
    .removeentry 0, .getstr (lit "a"), .getnum 1]

theorem collidingRun_allowed : ∀ op ∈ collidingRun, op.Allowed := by
  simp [collidingRun, TableOp.Allowed, MAXASIZE, MAXBITS]

section Runs

variable (H : Hashes) {narray nhash : Nat} (smallA : narray ≤ MAXASIZE)
  (smallH : nhash ≤ 2 ^ MAXBITS) (ops : List TableOp) (few : ops.length ≤ 2 ^ MAXBITS)
  (allowed : ∀ op ∈ ops, op.Allowed)

include smallA smallH few allowed

/-- Whatever the hash functions are, a table answers every run of up to `2^26`
operations as the map does, and is that map at the end. -/
theorem table_refines :
    ∃ t, luaHNew narray nhash = .ok t ∧
      ((tableMachine H).run t ops).2 = (mapMachine.run .empty ops).2 ∧
      ∀ key, luaHGetValue H ((tableMachine H).run t ops).1 key =
        .ok ((mapMachine.run .empty ops).1.node key) := by
  obtain ⟨t, made, R, answers⟩ := run_represents H smallA smallH few allowed
  refine ⟨t, made, answers, fun key => ?_⟩
  rw [luaHGetValue_eq R.sound, R.lookup]

omit smallA smallH few allowed in
/-- A run in which every key collides, with the answers of the map. -/
theorem table_refines_colliding :
    ∃ t, luaHNew 0 0 = .ok t ∧ ((tableMachine collidingHashes).run t collidingRun).2 =
      [.ok .nil, .ok .nil, .ok .nil, .ok .nil, .error .indexNil, .ok .nil, .ok .nil,
        .ok (.boolean true), .ok (.string (lit "one"))] := by
  obtain ⟨t, made, answers, -⟩ := table_refines collidingHashes (Nat.zero_le MAXASIZE)
    (Nat.zero_le (2 ^ MAXBITS)) collidingRun (by decide) collidingRun_allowed
  exact ⟨t, made, answers.trans rfl⟩

/-- "if an element is not in its main position, then the colliding element is in
its own main position"; and every element is found by a walk from its main
position. -/
theorem table_main_positions :
    ∃ t, luaHNew narray nhash = .ok t ∧
      ∀ t', t' = ((tableMachine H).run t ops).1 → ∀ i k, t'.keyAt i = some k →
        (∀ k', t'.keyAt (t'.mainposition H k) = some k' →
          t'.mainposition H k' = t'.mainposition H k) ∧
        t'.walk (·.rawequal k) (t'.mainposition H k) = .ok (some (.node i)) := by
  obtain ⟨t, made, R, -⟩ := run_represents H smallA smallH few allowed
  refine ⟨t, made, ?_⟩
  rintro t' rfl i k held
  have S := R.sound
  refine ⟨fun k' => S.scatter.anchor i k k' held, ?_⟩
  obtain ⟨nonnil, number⟩ := S.keyable i k held
  obtain ⟨r, found, spec⟩ := S.walk (·.rawequal k) k fun j n cell =>
    NodeKey.rawequal_iff nonnil fun k' held' =>
      (S.keyable j k' (keyAt_eq_some.mpr ⟨n, cell, held'⟩)).2
  rw [found, (spec (.node i)).mpr ⟨i, rfl, held⟩]

omit smallA smallH few allowed in
theorem table_main_positions_colliding :
    ∃ t, luaHNew 0 0 = .ok t ∧
      ∀ t', t' = ((tableMachine collidingHashes).run t collidingRun).1 →
        ∀ i k, t'.keyAt i = some k →
          (∀ k', t'.keyAt (t'.mainposition collidingHashes k) = some k' →
            t'.mainposition collidingHashes k' = t'.mainposition collidingHashes k) ∧
          t'.walk (·.rawequal k) (t'.mainposition collidingHashes k) = .ok (some (.node i)) :=
  table_main_positions collidingHashes (Nat.zero_le MAXASIZE) (Nat.zero_le (2 ^ MAXBITS))
    collidingRun (by decide) collidingRun_allowed

/-- `#` gives a boundary of the map. -/
theorem table_length :
    ∃ t, luaHNew narray nhash = .ok t ∧
      ∃ n, luaHGetn H ((tableMachine H).run t ops).1 = .ok n ∧
        Border (fun i => (mapMachine.run .empty ops).1.node (.number (.fin (i : Nat)))) n := by
  obtain ⟨t, made, R, -⟩ := run_represents H smallA smallH few allowed
  obtain ⟨n, found, border⟩ := luaHGetn_border R.sound
  refine ⟨t, made, n, found, ?_⟩
  simpa only [Border, HashTable.index, R.lookup] using border

omit smallA smallH few allowed in
theorem table_length_colliding :
    ∃ t, luaHNew 0 0 = .ok t ∧
      ∃ n, luaHGetn collidingHashes ((tableMachine collidingHashes).run t collidingRun).1 = .ok n ∧
        Border (fun i =>
          (mapMachine.run .empty collidingRun).1.node (.number (.fin (i : Nat)))) n :=
  table_length collidingHashes (Nat.zero_le MAXASIZE) (Nat.zero_le (2 ^ MAXBITS))
    collidingRun (by decide) collidingRun_allowed

/-- A traversal of the table never fails, whatever is done to the fields that are
there, and it ends. No key comes twice, every pair that comes was an entry of the
table, and every key that kept a value has come when it is over. -/
theorem table_traversal (visits : List TravelOp) :
    ∃ t, luaHNew narray nhash = .ok t ∧
      ∀ t', t' = ((tableMachine H).run t ops).1 →
        ∃ s, travel H (.start t') visits = .ok s ∧ (s.seen.map Prod.fst).Nodup ∧
          (t'.sizearray + t'.sizenode < nexts visits → s.ended = true) ∧
          (∀ e ∈ s.seen, e.2 ≠ .nil ∧
            ¬ Throughout H (fun s => s.table.lookup H e.1 ≠ e.2) (.start t') visits) ∧
          ∀ k, Throughout H (fun s => s.table.lookup H k ≠ .nil) (.start t') visits →
            s.ended = true → k ∈ s.seen.map Prod.fst := by
  obtain ⟨t, made, R, -⟩ := run_represents H smallA smallH few allowed
  refine ⟨t, made, ?_⟩
  rintro t' rfl
  exact traversal R.sound visits

omit smallA smallH few allowed in
theorem table_traversal_colliding :
    ∃ t, luaHNew 0 0 = .ok t ∧
      ∃ s, travel collidingHashes (.start ((tableMachine collidingHashes).run t collidingRun).1)
        [.next, .assign (.string (lit "a")) .nil, .removeentry 0, .next] = .ok s ∧
        (s.seen.map Prod.fst).Nodup := by
  obtain ⟨t, made, all⟩ := table_traversal collidingHashes (Nat.zero_le MAXASIZE)
    (Nat.zero_le (2 ^ MAXBITS)) collidingRun (by decide) collidingRun_allowed
    [.next, .assign (.string (lit "a")) .nil, .removeentry 0, .next]
  obtain ⟨s, run, distinct, -⟩ := all _ rfl
  exact ⟨t, made, s, run, distinct⟩

end Runs

/-- A rehash after any run keeps the map. The array part gets the largest size of
which more than half will be in use, and both parts together are at most twice
as large as the number of operations. -/
theorem table_rehash (H : Hashes) {narray nhash : Nat} (smallA : narray ≤ MAXASIZE)
    (smallH : nhash ≤ 2 ^ MAXBITS) (ops : List TableOp) (few : ops.length < 2 ^ MAXBITS)
    (allowed : ∀ op ∈ ops, op.Allowed) :
    ∃ t, luaHNew narray nhash = .ok t ∧
      ∀ t', t' = ((tableMachine H).run t ops).1 →
        ∀ ek, (mapMachine.run .empty ops).1.node ek = .nil →
          ∃ t'', rehash H t' ek = .ok t'' ∧
            (∀ key, luaHGetValue H t'' key = .ok ((mapMachine.run .empty ops).1.node key)) ∧
            (t''.sizearray = 0 ∨ (∃ i ≤ MAXBITS, t''.sizearray = 2 ^ i) ∧
              t''.sizearray / 2 < inUse H t' ek t''.sizearray) ∧
            (∀ j ≤ MAXBITS, t''.sizearray < 2 ^ j → inUse H t' ek (2 ^ j) ≤ 2 ^ j / 2) ∧
            t''.sizearray + t''.sizenode ≤ 2 * (ops.length + 1) + 1 := by
  obtain ⟨t, made, R, -⟩ := run_represents H smallA smallH few.le allowed
  refine ⟨t, made, ?_⟩
  rintro t' rfl ek absent
  obtain ⟨cover, covers, room⟩ := R.room
  obtain ⟨t'', result, sound, lookup, half, largest, size⟩ :=
    rehash_balanced R.sound (by rw [R.lookup, absent]) covers (by omega)
  refine ⟨t'', result, fun key => ?_, half, largest, by omega⟩
  rw [luaHGetValue_eq sound, lookup, R.lookup]

theorem table_rehash_colliding :
    ∃ t, luaHNew 0 0 = .ok t ∧
      ∃ t'', rehash collidingHashes ((tableMachine collidingHashes).run t collidingRun).1
          (.number (.fin 2)) = .ok t'' ∧
        t''.sizearray + t''.sizenode ≤ 21 := by
  obtain ⟨t, made, all⟩ := table_rehash collidingHashes (Nat.zero_le MAXASIZE)
    (Nat.zero_le (2 ^ MAXBITS)) collidingRun (by decide) collidingRun_allowed
  obtain ⟨t'', result, -, -, -, size⟩ := all _ rfl (.number (.fin 2)) rfl
  exact ⟨t, made, t'', result, size⟩

end Refinement

end ProfiLua
