import ProfiLua.Table.Rehash

/-!
The table after it was resized.

Every entry is inserted into a new node vector or gets its place in the array
part. The vector is as large as the number of entries that go there, so none of
these insertions finds it full (`reinsert_spec`), and the map stays what it was
(`resize_spec`). So one rehash makes the room a new key needs: `luaH_set` never
rehashes twice (`luaHSet_spec`).
-/

namespace ProfiLua

open Program HashTable

/-! ### Allocation -/

namespace HashTable

variable (t : HashTable)

def setarrayvector (size : Nat) : HashTable :=
  { t with array := t.array.take size ++ List.replicate (size - t.sizearray) .nil }

def setnodevector (size : Nat) : TableM HashTable :=
  if size = 0 then
    .ok { t with node := Pool.vector 1 .unused, dummy := true, lsizenode := 0, lastfree := 0 }
  else
    let lsize := ceillog2 size
    if MAXBITS < lsize then .error .overflow
    else
      let size := 2 ^ lsize
      .ok { t with
        node := Pool.vector size .unused, dummy := false, lsizenode := lsize, lastfree := size }

end HashTable

/-- `luaH_new`. -/
def luaHNew (narray nhash : Nat) : TableM HashTable :=
  let t : HashTable :=
    { array := [], lsizenode := 0, node := Pool.vector 1 .unused, dummy := true, lastfree := 0 }
  (t.setarrayvector narray).setnodevector nhash

section Resize

variable (H : Hashes)

/-- What an insertion during `resize` does when it finds no free place. -/
def noPlace : HashTable → TValue → TableM (HashTable × Slot) := fun _ _ => .error .nested

/-- The vanishing slice of the array part, its first index being `i + 1`. -/
def reinsertSlice : HashTable → List TValue → Nat → TableM HashTable
  | t, [], _ => .ok t
  | t, v :: vs, i =>
      if v ≠ .nil then do
        let (t, slot) ← luaHSetnumWith H noPlace t (i + 1 : Nat)
        reinsertSlice (t.assign slot v) vs (i + 1)
      else reinsertSlice t vs (i + 1)

/-- The old nodes below `i`, the last one first. -/
def reinsertNodes (nold : Pool NodeEntry) : HashTable → Nat → TableM HashTable
  | t, 0 => .ok t
  | t, i + 1 =>
      match nold.cell i with
      | none => .error .fault
      | some old =>
          if old.val.val ≠ .nil then
            match old.val.key with
            | .tvk k => do
                let (t, slot) ← luaHSetWith H noPlace t k
                reinsertNodes nold (t.assign slot old.val.val) i
            | _ => .error .fault
          else reinsertNodes nold t i

def resize (t : HashTable) (nasize nhsize : Nat) : TableM HashTable := do
  let oldasize := t.sizearray
  let grown := if nasize > oldasize then t.setarrayvector nasize else t
  let new ← grown.setnodevector nhsize
  let new ←
    if nasize < oldasize then
      reinsertSlice H { new with array := new.array.take nasize } (new.array.drop nasize) nasize
    else .ok new
  reinsertNodes H t.node new t.sizenode

/-- `luaH_resizearray`. -/
def luaHResizearray (t : HashTable) (nasize : Nat) : TableM HashTable :=
  resize H t nasize (if t.dummy then 0 else t.sizenode)

def rehash (t : HashTable) (ek : TValue) : TableM HashTable :=
  let nums : Nat → Nat := fun _ => 0
  let (nasize, nums) := numusearray t nums
  let totaluse := nasize
  let (used, ause, nums) := numusehash H t nums
  let totaluse := totaluse + used
  let nasize := nasize + ause
  let (c, nums) := countint H ek nums
  let nasize := nasize + c
  let totaluse := totaluse + 1
  let (na, nasize) := computesizes nums nasize
  resize H t nasize (totaluse - na)

/-- "grow table", "re-insert key into grown table". -/
def growAndSet (t : HashTable) (key : TValue) : TableM (HashTable × Slot) := do
  luaHSetWith H noPlace (← rehash H t key) key

def luaHSet (t : HashTable) (key : TValue) : TableM (HashTable × Slot) :=
  luaHSetWith H (growAndSet H) t key

def luaHSetnum (t : HashTable) (key : Int) : TableM (HashTable × Slot) :=
  luaHSetnumWith H (growAndSet H) t key

end Resize

/-! ### Entries inserted one after the other -/

section Reinsert

variable {H : Hashes} {t : HashTable}

/-- Entries set one after the other. -/
def reinsert (H : Hashes) : HashTable → List (TValue × TValue) → TableM HashTable
  | t, [] => .ok t
  | t, e :: es => do
      let (t, slot) ← luaHSetWith H noPlace t e.1
      reinsert H (t.assign slot e.2) es

/-- The map after assignments. -/
def updates (m : TValue → TValue) : List (TValue × TValue) → TValue → TValue
  | [] => m
  | e :: es => updates (Function.update m e.1 e.2) es

/-- Entries that are those of `f`, written into what is `f` elsewhere, make it
`f`. -/
theorem updates_eq {m f : TValue → TValue} {es : List (TValue × TValue)}
    (entries : ∀ e ∈ es, f e.1 = e.2) (rest : ∀ k, k ∉ es.map Prod.fst → m k = f k) :
    updates m es = f := by
  induction es generalizing m with
  | nil => exact funext fun k => rest k (by simp)
  | cons e es ih =>
      refine ih (fun e' mem => entries e' (List.mem_cons_of_mem _ mem)) fun k outside => ?_
      by_cases same : k = e.1
      · rw [same, Function.update_self, entries e (by simp)]
      · rw [Function.update_of_ne same]
        exact rest k (by simp [same, outside])

/-- An array part of `size` has no place for the key. -/
def beyond (H : Hashes) (size : Nat) (key : TValue) : Bool :=
  !decide (0 < arrayindex H key ∧ arrayindex H key ≤ size)

theorem beyond_iff {key : TValue} : beyond H t.sizearray key = true ↔ ¬ t.InArray H key := by
  simp only [beyond, InArray, Bool.not_eq_true', decide_eq_false_iff_not]

/-- The keys of the entries that go to the nodes. -/
def nodeKeys (H : Hashes) (size : Nat) (es : List (TValue × TValue)) : List TValue :=
  (es.map Prod.fst).filter (beyond H size)

/-- Setting entries one after the other never needs a rehash, if the vector has
a node for each key that goes there. The keys `done` are those that have theirs.
-/
theorem reinsert_spec {es : List (TValue × TValue)} (S : t.Sound H) (clean : t.Clean)
    (keyable : ∀ e ∈ es, e.1 ≠ .nil ∧ e.1 ≠ .number .nan) (done : List TValue)
    (held : ∀ i k, t.keyAt i = some k → k ∈ done)
    (room : done.length + (nodeKeys H t.sizearray es).length ≤ t.sizenode)
    (dummy : t.dummy = true → nodeKeys H t.sizearray es = []) :
    ∃ t', reinsert H t es = .ok t' ∧ t'.Sound H ∧ t'.Clean ∧
      t'.lookup H = updates (t.lookup H) es ∧ t'.sizearray = t.sizearray ∧
      t'.lsizenode = t.lsizenode ∧ t'.dummy = t.dummy ∧
      ∀ i k, t'.keyAt i = some k → k ∈ done ∨ k ∈ nodeKeys H t.sizearray es := by
  induction es generalizing t done with
  | nil => exact ⟨t, rfl, S, clean, rfl, rfl, rfl, rfl, fun i k at_i => .inl (held i k at_i)⟩
  | cons e es ih =>
      obtain ⟨nonnil, number⟩ := keyable e (by simp)
      have filter : nodeKeys H t.sizearray (e :: es) =
          if beyond H t.sizearray e.1 then e.1 :: nodeKeys H t.sizearray es
          else nodeKeys H t.sizearray es := by
        simp only [nodeKeys, List.map_cons, List.filter_cons]
      rcases luaHSetWith_spec S nonnil number (noPlace) with
        ⟨t₁, slot, result, opened⟩ | ⟨-, absent, all⟩
      · -- the entry is written; the rest goes on from there
        have sound := opened.sound.assign opened.located e.2
        have size : (t₁.assign slot e.2).sizearray = t.sizearray := by
          rw [assign_sizearray, opened.sizearray]
        have bits : (t₁.assign slot e.2).lsizenode = t.lsizenode := by
          rw [assign_lsizenode, opened.lsizenode]
        have same : (t₁.assign slot e.2).dummy = t.dummy := by
          rw [assign_dummy, opened.dummy]
        have nodes : (t₁.assign slot e.2).sizenode = t.sizenode := by
          simp only [sizenode, bits]
        have lookup : (t₁.assign slot e.2).lookup H = Function.update (t.lookup H) e.1 e.2 := by
          rw [lookup_assign opened.sound opened.located, opened.lookup]
        obtain ⟨t', rest, sound', clean', lookup', size', bits', same', keys⟩ :=
          ih sound (assign_clean _ _ _ (opened.clean clean))
            (fun e' mem => keyable e' (List.mem_cons_of_mem _ mem))
            (if beyond H t.sizearray e.1 then e.1 :: done else done)
            (by
              intro i k at_i
              rw [(assign_labels _ _ _ _).1] at at_i
              rcases opened.keys i k at_i with ⟨rfl, outside⟩ | ⟨j, at_j⟩
              · rw [if_pos (beyond_iff.mpr outside)]
                simp
              · have mem := held j k at_j
                split_ifs
                · exact List.mem_cons_of_mem _ mem
                · exact mem)
            (by
              rw [size, nodes]
              rw [filter] at room
              split_ifs at room ⊢
              · simp only [List.length_cons] at room ⊢
                omega
              · exact room)
            (by
              intro real
              rw [same] at real
              have none := dummy real
              rw [size]
              rw [filter] at none
              split_ifs at none
              exact none)
        refine ⟨t', ?_, sound', clean', ?_, size'.trans size, bits'.trans bits,
          same'.trans same, ?_⟩
        · simp only [reinsert, result, TableM.ok_bind]
          exact rest
        · rw [lookup', lookup]
          rfl
        · intro i k at_i
          rw [filter]
          have known := keys i k at_i
          rw [size] at known
          split_ifs at known ⊢
          · simp only [List.mem_cons] at known ⊢
            tauto
          · exact known
      · -- a full vector would hold more keys than there are
        exfalso
        have outside : beyond H t.sizearray e.1 = true :=
          beyond_iff.mpr fun inside => absent _ ((located_inArray S inside _).mpr rfl)
        rw [filter, if_pos outside] at room dummy
        rcases all with real | full
        · cases dummy real
        · obtain ⟨i, below, idle⟩ := S.scatter.exists_idle done
            (fun i used => by
              obtain ⟨k, at_i⟩ := clean i used
              exact ⟨k, held i k at_i, at_i⟩)
            (by
              rw [S.nodes]
              simp only [List.length_cons] at room
              omega)
          rw [full i (S.nodes ▸ below)] at idle
          cases idle

theorem reinsert_append (es es' : List (TValue × TValue)) :
    reinsert H t (es ++ es') = (reinsert H t es >>= fun t => reinsert H t es') := by
  induction es generalizing t with
  | nil => rfl
  | cons e es ih =>
      simp only [List.cons_append, reinsert]
      cases luaHSetWith H noPlace t e.1 with
      | error _ => rfl
      | ok r => exact ih

end Reinsert

/-! ### The entries of a table -/

/-- The entries with a value among those of the array part from index `i + 1` on. -/
def sliceEntries : List TValue → Nat → List (TValue × TValue)
  | [], _ => []
  | v :: vs, i =>
      if v ≠ .nil then (.number (.fin (i + 1 : Nat)), v) :: sliceEntries vs (i + 1)
      else sliceEntries vs (i + 1)

section Entries

variable {H : Hashes} {t : HashTable}

theorem mem_sliceEntries {vs : List TValue} {i : Nat} {e : TValue × TValue} :
    e ∈ sliceEntries vs i ↔
      ∃ j < vs.length, e.1 = .number (.fin (i + j + 1 : Nat)) ∧ e.2 = vs.getD j .nil ∧
        e.2 ≠ .nil := by
  induction vs generalizing i with
  | nil => simp [sliceEntries]
  | cons v vs ih =>
      have shift : (∃ j < vs.length, e.1 = .number (.fin (i + 1 + j + 1 : Nat)) ∧
          e.2 = vs.getD j .nil ∧ e.2 ≠ .nil) ↔
          ∃ j < (v :: vs).length, j ≠ 0 ∧ e.1 = .number (.fin (i + j + 1 : Nat)) ∧
            e.2 = (v :: vs).getD j .nil ∧ e.2 ≠ .nil := by
        constructor
        · rintro ⟨j, below, index, value⟩
          refine ⟨j + 1, by simpa using below, by omega, ?_, value⟩
          rw [index, show i + 1 + j + 1 = i + (j + 1) + 1 by omega]
        · rintro ⟨j, below, ne, index, value⟩
          obtain ⟨j, rfl⟩ : ∃ j', j = j' + 1 := ⟨j - 1, by omega⟩
          refine ⟨j, by simpa using below, ?_, value⟩
          rw [index, show i + 1 + j + 1 = i + (j + 1) + 1 by omega]
      simp only [sliceEntries]
      split_ifs with value
      · rw [List.mem_cons, ih, shift]
        constructor
        · rintro (rfl | ⟨j, below, -, spec⟩)
          · exact ⟨0, by simp, rfl, rfl, value⟩
          · exact ⟨j, below, spec⟩
        · rintro ⟨j, below, index, same, ne⟩
          by_cases first : j = 0
          · subst first
            exact .inl (Prod.ext index same)
          · exact .inr ⟨j, below, first, index, same, ne⟩
      · rw [ih, shift]
        constructor
        · rintro ⟨j, below, -, spec⟩
          exact ⟨j, below, spec⟩
        · rintro ⟨j, below, index, same, ne⟩
          refine ⟨j, below, ?_, index, same, ne⟩
          rintro rfl
          exact value (fun none => ne (same.trans none))

theorem sliceEntries_nodup (vs : List TValue) (i : Nat) :
    ((sliceEntries vs i).map Prod.fst).Nodup := by
  induction vs generalizing i with
  | nil => exact List.nodup_nil
  | cons v vs ih =>
      simp only [sliceEntries]
      split_ifs
      · rw [List.map_cons, List.nodup_cons]
        refine ⟨fun mem => ?_, ih _⟩
        obtain ⟨e, mem, same⟩ := List.mem_map.mp mem
        obtain ⟨j, -, index, -⟩ := mem_sliceEntries.mp mem
        rw [same] at index
        simp only [TValue.number.injEq, LuaNumber.fin.injEq, Nat.cast_inj] at index
        omega
      · exact ih _

theorem mem_nodeEntries {node : Pool NodeEntry} {n : Nat} {e : TValue × TValue} :
    e ∈ nodeEntries node n ↔
      e.2 ≠ .nil ∧ ∃ i < n, ∃ next, node.cell i = some ⟨⟨.tvk e.1, e.2⟩, next⟩ := by
  induction n with
  | zero => simp [nodeEntries]
  | succ n ih =>
      have last : (∃ i < n + 1, ∃ next, node.cell i = some ⟨⟨.tvk e.1, e.2⟩, next⟩) ↔
          (∃ next, node.cell n = some ⟨⟨.tvk e.1, e.2⟩, next⟩) ∨
            ∃ i < n, ∃ next, node.cell i = some ⟨⟨.tvk e.1, e.2⟩, next⟩ := by
        constructor
        · rintro ⟨i, below, cell⟩
          by_cases same : i = n
          · exact .inl (same ▸ cell)
          · exact .inr ⟨i, by omega, cell⟩
        · rintro (cell | ⟨i, below, cell⟩)
          · exact ⟨n, by omega, cell⟩
          · exact ⟨i, by omega, cell⟩
      rw [last]
      simp only [nodeEntries]
      split
      · rename_i k v next cell
        have here : (∃ next, node.cell n = some ⟨⟨.tvk e.1, e.2⟩, next⟩) ↔ e = (k, v) := by
          rw [cell, Prod.ext_iff]
          simp [eq_comm]
        rw [here]
        split_ifs with value
        · rw [List.mem_cons, ih]
          constructor
          · rintro (rfl | ⟨ne, found⟩)
            · exact ⟨value, .inl rfl⟩
            · exact ⟨ne, .inr found⟩
          · rintro ⟨ne, same | found⟩
            · exact .inl same
            · exact .inr ⟨ne, found⟩
        · rw [ih]
          constructor
          · rintro ⟨ne, found⟩
            exact ⟨ne, .inr found⟩
          · rintro ⟨ne, rfl | found⟩
            · exact absurd ne value
            · exact ⟨ne, found⟩
      · rename_i other
        rw [ih]
        constructor
        · rintro ⟨ne, found⟩
          exact ⟨ne, .inr found⟩
        · rintro ⟨ne, ⟨next, cell⟩ | found⟩
          · exact absurd cell (other _ _ _)
          · exact ⟨ne, found⟩

theorem nodeEntries_length_le (node : Pool NodeEntry) (n : Nat) :
    (nodeEntries node n).length ≤ n := by
  induction n with
  | zero => exact Nat.le_refl 0
  | succ n ih =>
      simp only [nodeEntries]
      split
      · split
        · exact Nat.succ_le_succ ih
        · omega
      · omega

theorem nodeEntries_nodup (S : t.Sound H) (n : Nat) :
    ((nodeEntries t.node n).map Prod.fst).Nodup := by
  induction n with
  | zero => exact List.nodup_nil
  | succ n ih =>
      simp only [nodeEntries]
      split
      · rename_i k v next cell
        split_ifs
        · rw [List.map_cons, List.nodup_cons]
          refine ⟨fun mem => ?_, ih⟩
          obtain ⟨e, mem, same⟩ := List.mem_map.mp mem
          obtain ⟨-, i, below, next', cell'⟩ := mem_nodeEntries.mp mem
          have at_n : t.keyAt n = some k := keyAt_eq_some.mpr ⟨_, cell, rfl⟩
          have at_i : t.keyAt i = some k :=
            keyAt_eq_some.mpr ⟨_, cell', congrArg NodeKey.tvk same⟩
          have eq := S.scatter.distinct i n k at_i at_n
          omega
        · exact ih
      · exact ih

/-- `luaH_setnum` is `luaH_set` of the number, if it is an `int`. -/
theorem luaHSetnumWith_eq (full : HashTable → TValue → TableM (HashTable × Slot)) {k : Int}
    (low : -2 ^ 31 ≤ k) (high : k < 2 ^ 31) :
    luaHSetnumWith H full t k = luaHSetWith H full t (.number (.fin k)) := by
  have cast : (luaNumber2integer H.toCasts (.fin k)).toInt = k := by
    rw [luaNumber2integer_int _ (by omega) (by omega)]
    exact Int32.toInt_ofInt_of_le (by omega) (by omega)
  have int : (LuaNumber.fin k).numeq (.fin k) = true := by simp [LuaNumber.numeq]
  simp only [luaHSetnumWith, luaHSetWith, luaHGet, cast, int, if_true]

/-- The vanishing slice is inserted entry by entry. -/
theorem reinsertSlice_eq {vs : List TValue} {i : Nat} (small : i + vs.length < 2 ^ 31) :
    reinsertSlice H t vs i = reinsert H t (sliceEntries vs i) := by
  induction vs generalizing t i with
  | nil => rfl
  | cons v vs ih =>
      simp only [List.length_cons] at small
      simp only [reinsertSlice, sliceEntries]
      split_ifs with value
      · have number : luaHSetnumWith H noPlace t (i + 1 : Nat) =
            luaHSetWith H noPlace t (.number (.fin (i + 1 : Nat))) := by
          have same := luaHSetnumWith_eq (H := H) (t := t) noPlace (k := ((i + 1 : Nat) : Int))
            (by omega) (by omega)
          simpa using same
        simp only [reinsert, number]
        refine congrArg _ (funext fun r => ?_)
        exact ih (by omega)
      · exact ih (by omega)

/-- So are the old nodes, whose dead keys have no value to insert. -/
theorem reinsertNodes_eq {old : HashTable} (S : old.Sound H) {n : Nat} (le : n ≤ old.sizenode) :
    reinsertNodes H old.node t n = reinsert H t (nodeEntries old.node n) := by
  induction n generalizing t with
  | zero => rfl
  | succ n ih =>
      obtain ⟨⟨⟨k, v⟩, next⟩, cell⟩ :=
        Option.ne_none_iff_exists'.mp (S.scatter.allocated n (S.nodes ▸ le))
      have rest := fun t => ih (t := t) (by omega)
      by_cases value : v = .nil
      · have entries : nodeEntries old.node (n + 1) = nodeEntries old.node n := by
          simp only [nodeEntries, cell]
          split
          · rename_i same
            cases same
            exact if_neg (not_not_intro value)
          · rfl
        rw [entries, ← rest]
        simp only [reinsertNodes, cell]
        exact if_neg (not_not_intro value)
      · obtain ⟨k, rfl⟩ : ∃ k', k = .tvk k' := S.live n _ cell value
        have entries : nodeEntries old.node (n + 1) = (k, v) :: nodeEntries old.node n := by
          simp only [nodeEntries, cell]
          exact if_pos value
        rw [entries]
        simp only [reinsertNodes, cell, reinsert]
        rw [if_pos value]
        exact congrArg _ (funext fun r => rest _)

end Entries

/-! ### The new table -/

section Resized

variable {H : Hashes} {t : HashTable}

/-- A table without nodes in use, that has room for `size` keys. -/
structure Vacant (H : Hashes) (size : Nat) (t : HashTable) : Prop where
  sound : t.Sound H
  unused : ∀ i, nodeLabels.usedAt t.node i = false
  room : size ≤ t.sizenode
  tight : t.sizenode ≤ max 1 (2 * size - 1)
  dummy : t.dummy = true → size = 0

theorem Vacant.keyless {size : Nat} (V : Vacant H size t) (i : Nat) (k : TValue) :
    t.keyAt i ≠ some k :=
  Labels.ne_key_of_idle (V.unused i) k

theorem vector_unused (size i : Nat) :
    nodeLabels.usedAt (Pool.vector size NodeEntry.unused) i = false := by
  simp only [Labels.usedAt, Pool.vector]
  split <;> rfl

/-- `setnodevector` gives an empty vector with enough nodes: the next power of
two, or the dummy for none at all. -/
theorem setnodevector_spec {size : Nat} (bits : size ≤ 2 ^ MAXBITS) :
    ∃ t', t.setnodevector size = .ok t' ∧ t'.array = t.array ∧
      ∀ array : List TValue, array.length ≤ MAXASIZE →
        Vacant H size { t' with array := array } := by
  have scatter : ∀ t' : HashTable, t'.node = Pool.vector t'.sizenode .unused →
      Scatter nodeLabels (t'.mainposition H) t'.node := by
    intro t' node
    rw [node]
    exact .vacant (fun k => t'.mainposition_lt H k) fun i below =>
      ⟨.unused, Pool.vector_cell _ below, rfl⟩
  have keyless : ∀ (t' : HashTable) (n : Nat), t'.node = Pool.vector n .unused →
      ∀ i k, t'.keyAt i ≠ some k := by
    intro t' n node i k
    rw [keyAt, node]
    exact Labels.ne_key_of_idle (vector_unused n i) k
  have valueless : ∀ (n i : Nat) (m : Node NodeEntry),
      (Pool.vector n NodeEntry.unused).cell i = some m → m.val.val = .nil := by
    intro n i m cell
    simp only [Pool.vector, Option.ite_none_right_eq_some, Option.some.injEq] at cell
    rw [← cell.2]
    rfl
  by_cases empty : size = 0
  · refine ⟨{ t with
      node := Pool.vector 1 .unused, dummy := true, lsizenode := 0, lastfree := 0 },
      by rw [setnodevector, if_pos empty], rfl, fun array small => ?_⟩
    refine ⟨⟨small, Nat.zero_le _, rfl, scatter _ rfl, ?_, ?_, ?_, ?_, ?_, ?_⟩, vector_unused 1,
      ?_, ?_, ?_⟩
    · exact fun i k held => absurd held (keyless _ 1 rfl i k)
    · exact fun i k held => absurd held (keyless _ 1 rfl i k)
    · exact fun i m cell value => absurd (valueless 1 i m cell) value
    · exact Nat.zero_le _
    · exact fun real => absurd real (by simp)
    · exact fun _ => ⟨rfl, rfl, rfl⟩
    · rw [empty]
      exact Nat.zero_le _
    · exact le_max_left _ _
    · exact fun _ => empty
  · have pos : 0 < size := Nat.pos_of_ne_zero empty
    have le : ceillog2 size ≤ MAXBITS := (ceillog2_le pos).mpr bits
    have small : ¬ MAXBITS < ceillog2 size := Nat.not_lt.mpr le
    refine ⟨{ t with
      node := Pool.vector (2 ^ ceillog2 size) .unused, dummy := false,
      lsizenode := ceillog2 size, lastfree := 2 ^ ceillog2 size },
      by simp only [setnodevector, if_neg empty, if_neg small], rfl, fun array few => ?_⟩
    refine ⟨⟨few, le, rfl, scatter _ rfl, ?_, ?_, ?_, ?_, ?_, ?_⟩, vector_unused _, ?_, ?_, ?_⟩
    · exact fun i k held => absurd held (keyless _ _ rfl i k)
    · exact fun i k held => absurd held (keyless _ _ rfl i k)
    · exact fun i m cell value => absurd (valueless _ i m cell) value
    · exact Nat.le_refl _
    · intro _ i low high
      simp only [sizenode] at low high
      omega
    · exact fun real => absurd real (by simp)
    · exact (ceillog2_le pos).mp (Nat.le_refl _)
    · simp only [sizenode]
      cases bit : ceillog2 size with
      | zero => exact le_max_left _ _
      | succ i =>
          have above : ¬ ceillog2 size ≤ i := by omega
          rw [ceillog2_le pos] at above
          rw [pow_succ]
          omega
    · exact fun real => absurd real (by simp)

/-- What `resize` inserts again. -/
def resizeEntries (t : HashTable) (nasize : Nat) : List (TValue × TValue) :=
  sliceEntries (t.array.drop nasize) nasize ++ nodeEntries t.node t.sizenode

/-- `resize` inserts the entries into a new table that has kept the array part,
or what is left of it. -/
theorem resize_eq (S : t.Sound H) (nasize nhsize : Nat) (small : nasize ≤ MAXASIZE)
    (bits : nhsize ≤ 2 ^ MAXBITS) :
    ∃ new, Vacant H nhsize new ∧ new.sizearray = nasize ∧
      (∀ i < nasize, new.array.getD i .nil = t.array.getD i .nil) ∧
      resize H t nasize nhsize = reinsert H new (resizeEntries t nasize) := by
  have max : MAXASIZE = 2 ^ 26 := rfl
  have before := S.sizearray_le
  have nodes : ∀ t₁, reinsertNodes H t.node t₁ t.sizenode =
      reinsert H t₁ (nodeEntries t.node t.sizenode) :=
    fun t₁ => reinsertNodes_eq S (le_refl _)
  by_cases grows : nasize > t.sizearray
  · obtain ⟨new, made, array, vacant⟩ := setnodevector_spec (H := H)
      (t := t.setarrayvector nasize) bits
    have size : new.array.length = nasize := by
      simp only [sizearray] at grows
      rw [array, setarrayvector, List.length_append, List.length_take, List.length_replicate,
        sizearray]
      omega
    refine ⟨new, vacant new.array (size.trans_le small), size, ?_, ?_⟩
    · intro i below
      rw [array]
      simp only [setarrayvector]
      rw [List.take_of_length_le (by simpa [sizearray] using grows.le)]
      by_cases old : i < t.array.length
      · simp only [List.getD_eq_getElem?_getD, List.getElem?_append_left old]
      · simp only [List.getD_eq_getElem?_getD, List.getElem?_append, if_neg old,
          List.getElem?_replicate, List.getElem?_eq_none (Nat.le_of_not_lt old)]
        split <;> rfl
    · have none : t.array.drop nasize = [] := List.drop_of_length_le grows.le
      simp only [resize, if_pos grows, made, if_neg (by omega : ¬ nasize < t.sizearray),
        TableM.ok_bind, resizeEntries, none, nodes]
      rfl
  · obtain ⟨new, made, array, vacant⟩ := setnodevector_spec (H := H) (t := t) bits
    have size : (t.array.take nasize).length = nasize := by
      simp only [sizearray] at grows
      rw [List.length_take]
      omega
    refine ⟨{ new with array := t.array.take nasize }, vacant _ (size.trans_le small), size,
      ?_, ?_⟩
    · intro i below
      simp [List.getD_eq_getElem?_getD, below]
    · simp only [resize, if_neg grows, made, TableM.ok_bind, resizeEntries, reinsert_append,
        array]
      split_ifs with shrinks
      · rw [reinsertSlice_eq]
        · exact congrArg _ (funext nodes)
        · simp only [List.length_drop]
          simp only [sizearray] at before
          omega
      · have none : t.array.drop nasize = [] := by
          simp only [sizearray] at shrinks
          exact List.drop_of_length_le (by omega)
        have all : t.array.take nasize = t.array := by
          simp only [sizearray] at shrinks
          exact List.take_of_length_le (by omega)
        rw [none, all, nodes, ← array]
        rfl

/-- The outcome of `resize`. -/
structure Resized (H : Hashes) (t : HashTable) (nasize nhsize : Nat) (t' : HashTable) : Prop where
  sound : t'.Sound H
  clean : t'.Clean
  lookup : t'.lookup H = t.lookup H
  sizearray : t'.sizearray = nasize
  room : nhsize ≤ t'.sizenode
  tight : t'.sizenode ≤ max 1 (2 * nhsize - 1)
  dummy : t'.dummy = true → nhsize = 0
  keys : ∀ i k, t'.keyAt i = some k → k ∈ nodeKeys H nasize (resizeEntries t nasize)

/-- What `resize` inserts again are entries of the old map: the values above the
new array part under their indices, the live nodes under their keys. -/
theorem lookup_resizeEntries (S : t.Sound H) (nasize : Nat) {e : TValue × TValue}
    (mem : e ∈ resizeEntries t nasize) : t.lookup H e.1 = e.2 := by
  rcases List.mem_append.mp mem with mem | mem
  · obtain ⟨j, below, index, value, -⟩ := mem_sliceEntries.mp mem
    have max : MAXASIZE = 2 ^ 26 := rfl
    have before := S.sizearray_le
    rw [List.length_drop] at below
    have arrayIndex : arrayindex H e.1 = (nasize + j + 1 : Nat) := by
      rw [index]
      simp only [sizearray] at before
      exact (arrayindex_number (by omega)).mpr ⟨by simp, by omega⟩
    have inside : t.InArray H e.1 := by
      rw [InArray, arrayIndex, sizearray]
      omega
    have place : (((nasize + j + 1 : Nat) : Int) - 1).toNat = nasize + j := by omega
    rw [lookup_inArray S inside, arrayIndex, value, place]
    simp [List.getD_eq_getElem?_getD]
  · obtain ⟨value, i, -, next, cell⟩ := mem_nodeEntries.mp mem
    have outside := S.outside i e.1 (keyAt_eq_some.mpr ⟨_, cell, rfl⟩)
    exact (lookup_outside S outside value).mpr ⟨i, next, cell⟩

/-- The other keys have the same value in the new table before anything is
inserted: theirs is kept in the array part, or they have none in either. -/
theorem Vacant.lookup_kept {new : HashTable} {nasize nhsize : Nat} (V : Vacant H nhsize new)
    (S : t.Sound H) (size : new.sizearray = nasize)
    (kept : ∀ i < nasize, new.array.getD i .nil = t.array.getD i .nil) {k : TValue}
    (absent : k ∉ (resizeEntries t nasize).map Prod.fst) : new.lookup H k = t.lookup H k := by
  have notNode : ¬ t.InArray H k → t.lookup H k = .nil := by
    intro outside
    by_contra value
    obtain ⟨i, next, cell⟩ := (lookup_outside S outside value).mp rfl
    have below := Pool.lt_bound cell
    rw [S.nodes] at below
    refine absent (List.mem_map.mpr ⟨(k, t.lookup H k), List.mem_append_right _ ?_, rfl⟩)
    exact mem_nodeEntries.mpr ⟨value, i, below, next, cell⟩
  by_cases inNew : new.InArray H k
  · have range := inNew
    rw [InArray, size] at range
    rw [lookup_inArray V.sound inNew, kept _ (by omega)]
    by_cases inOld : t.InArray H k
    · rw [lookup_inArray S inOld]
    · rw [notNode inOld]
      rw [InArray, sizearray] at inOld
      have past : t.array.length ≤ (arrayindex H k - 1).toNat := by omega
      rw [List.getD_eq_getElem?_getD, List.getElem?_eq_none past, Option.getD_none]
  · have none : new.lookup H k = .nil := by
      refine lookup_of_absent V.sound fun slot place => ?_
      obtain ⟨i, -, held⟩ := (located_outside inNew slot).mp place
      exact V.keyless i k held
    rw [none]
    by_cases inOld : t.InArray H k
    · rw [lookup_inArray S inOld]
      by_contra value
      rw [InArray, size] at inNew
      obtain ⟨m, same, index, -⟩ := arrayindex_pos inOld.1
      rw [InArray, index, sizearray] at inOld
      rw [index] at inNew value
      refine absent (List.mem_map.mpr ⟨(k, t.array.getD (m - 1).toNat .nil),
        List.mem_append_left _ (mem_sliceEntries.mpr ⟨(m - 1).toNat - nasize, ?_, ?_, ?_, ?_⟩),
        rfl⟩)
      · rw [List.length_drop]
        omega
      · rw [same]
        have whole : ((nasize + ((m - 1).toNat - nasize) + 1 : Nat) : Int) = m := by omega
        simp only [TValue.number.injEq, LuaNumber.fin.injEq]
        exact_mod_cast whole.symm
      · have whole : nasize + ((m - 1).toNat - nasize) = (m - 1).toNat := by omega
        simp only [List.getD_eq_getElem?_getD, List.getElem?_drop, whole]
      · exact fun none => value none.symm
    · exact (notNode inOld).symm

/-- Resizing keeps the map, if the node vector is given room for the keys that
have none in the array part. What is kept of the array part and what is inserted
make up the old map. -/
theorem resize_spec (S : t.Sound H) (nasize nhsize : Nat) (small : nasize ≤ MAXASIZE)
    (bits : nhsize ≤ 2 ^ MAXBITS)
    (room : (nodeKeys H nasize (resizeEntries t nasize)).length ≤ nhsize) :
    ∃ t', resize H t nasize nhsize = .ok t' ∧ Resized H t nasize nhsize t' := by
  obtain ⟨new, vacant, size, kept, step⟩ := resize_eq S nasize nhsize small bits
  have keyable : ∀ e ∈ resizeEntries t nasize, e.1 ≠ .nil ∧ e.1 ≠ .number .nan := by
    intro e mem
    rcases List.mem_append.mp mem with mem | mem
    · obtain ⟨j, -, index, -⟩ := mem_sliceEntries.mp mem
      rw [index]
      exact ⟨by simp, by simp⟩
    · obtain ⟨-, i, -, next, cell⟩ := mem_nodeEntries.mp mem
      exact S.keyable i _ (keyAt_eq_some.mpr ⟨_, cell, rfl⟩)
  have clean : new.Clean := by
    intro i used
    rw [vacant.unused i] at used
    cases used
  obtain ⟨t', result, sound, clean', lookup, size', bits', dummy, keys⟩ :=
    reinsert_spec vacant.sound clean keyable []
      (fun i k held => absurd held (vacant.keyless i k))
      (by
        rw [size, List.length_nil, Nat.zero_add]
        exact room.trans vacant.room)
      (by
        intro real
        rw [vacant.dummy real] at room
        rw [size]
        exact List.length_eq_zero_iff.mp (Nat.le_zero.mp room))
  refine ⟨t', step.trans result, sound, clean', ?_, size'.trans size, ?_, ?_, ?_, ?_⟩
  · rw [lookup]
    exact updates_eq (fun e mem => lookup_resizeEntries S nasize mem) fun k absent =>
      vacant.lookup_kept S size kept absent
  · rw [sizenode, bits']
    exact vacant.room
  · rw [sizenode, bits']
    exact vacant.tight
  · intro real
    exact vacant.dummy (dummy ▸ real)
  · intro i k held
    have known := keys i k held
    rw [size] at known
    simpa using known

end Resized

end ProfiLua
