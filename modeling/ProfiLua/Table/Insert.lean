import ProfiLua.Table.Sound

/-!
Assignments and new keys.

Both keep the invariant. An assignment changes the map under its own key
(`Sound.assign`, `lookup_assign`), a new key not at all (`newkey_spec`): its
value is nil until the caller assigns one.
-/

namespace ProfiLua

open Program HashTable

variable {H : Hashes} {t : HashTable} {key : TValue}

/-! ### Assignments -/

/-- A table whose nodes hold the same keys, or fewer. -/
theorem HashTable.Sound.renode (S : t.Sound H) {q : Pool NodeEntry} {i : Nat} {e : NodeEntry}
    {n : Node NodeEntry} (cell : t.node.cell i = some n) (used : n.val.key ≠ .nil)
    (write : q = t.node.put i ⟨e, n.next⟩)
    (keys : e.key = n.val.key ∨ e.val = .nil ∧ ∃ k, n.val.key = .tvk k ∧ e.key = .dead k)
    (live : e.val ≠ .nil → ∃ k, e.key = .tvk k) :
    Sound H { t with node := q } := by
  have here : q.cell i = some ⟨e, n.next⟩ := write ▸ Pool.put_cell_self cell _
  have other : ∀ j, j ≠ i → q.cell j = t.node.cell j :=
    fun j ne => write ▸ t.node.put_cell_of_ne ne _
  have size : q.bound = t.node.bound := write ▸ t.node.put_bound _ _
  have busy : nodeLabels.used e = true := by
    rcases keys with same | ⟨-, k, -, dead⟩
    · simpa [nodeLabels, same] using used
    · simp [nodeLabels, dead]
  have kept : ∀ j k, nodeLabels.keyAt q j = some k → t.keyAt j = some k := by
    intro j k held
    by_cases ji : j = i
    · rw [ji, Labels.keyAt_eq here, nodeLabels_key_iff] at held
      rcases keys with same | ⟨-, k', -, dead⟩
      · exact keyAt_eq_some.mpr ⟨n, ji ▸ cell, same ▸ held⟩
      · rw [dead] at held
        cases held
    · simpa only [keyAt, Labels.keyAt, other j ji] using held
  have usedAt : ∀ j, nodeLabels.usedAt t.node j = true → nodeLabels.usedAt q j = true := by
    intro j busy'
    by_cases ji : j = i
    · rw [ji, Labels.usedAt_eq here]
      exact busy
    · simpa only [Labels.usedAt, other j ji] using busy'
  constructor
  · exact S.sizearray_le
  · exact S.lsizenode_le
  · exact size.trans S.nodes
  · refine S.scatter.relabel size ?_ ?_ usedAt (fun j k held => .inl (kept j k held)) ?_
    · intro j below
      by_cases ji : j = i
      · simp [ji, here]
      · rw [other j ji]
        exact S.scatter.allocated j below
    · intro j
      by_cases ji : j = i
      · rw [ji, Pool.succ_eq here, Pool.succ_eq cell]
      · simp only [Pool.succ, other j ji]
    · intro j k former
      by_cases ji : j = i
      · rw [ji, Labels.formerAt_eq here] at former
        rw [ji, Labels.formerAt_eq cell, Labels.keyAt_eq cell]
        rcases keys with same | ⟨-, k', live, dead⟩
        · left
          rw [← former]
          simp only [nodeLabels, same]
        · right
          rw [nodeLabels_key_iff, live]
          simp only [nodeLabels, dead, Option.some.injEq] at former
          rw [former]
      · left
        simpa only [Labels.formerAt, other j ji] using former
  · exact fun j k held => S.keyable j k (kept j k held)
  · exact fun j k held => S.outside j k (kept j k held)
  · intro j m cell' value
    by_cases ji : j = i
    · simp only [ji, here, Option.some.injEq] at cell'
      subst cell'
      exact live value
    · exact S.live j m (other j ji ▸ cell') value
  · exact S.free_le
  · exact fun real j low below => usedAt j (S.taken real j low below)
  · intro dummy
    obtain ⟨bits, free, unused⟩ := S.isdummy dummy
    have zero : i = 0 := by
      have below := Pool.lt_bound cell
      rw [S.nodes, sizenode, bits] at below
      omega
    rw [zero, unused] at cell
    cases cell
    exact absurd rfl used

/-- An assignment through a pointer to a value keeps the invariant. -/
theorem HashTable.Sound.assign (S : t.Sound H) {slot : Slot} (place : t.Located H key slot)
    (v : TValue) : (t.assign slot v).Sound H := by
  cases slot with
  | array i =>
      have size : (t.array.set i v).length = t.array.length := List.length_set
      exact { S with
        sizearray_le := by
          simpa only [HashTable.assign, sizearray, size] using S.sizearray_le
        outside := by
          intro j k held
          simpa only [HashTable.assign, InArray, sizearray, size] using S.outside j k held }
  | node i =>
      obtain ⟨n, cell, held⟩ := keyAt_eq_some.mp place
      simp only [HashTable.assign, cell]
      exact S.renode cell (by simp [held]) rfl (.inl rfl) fun _ => ⟨key, held⟩

/-- An assignment through the pointer to the value of a key changes what is
found under that key, and under no other. -/
theorem lookup_assign (S : t.Sound H) {slot : Slot} (place : t.Located H key slot) (v : TValue) :
    (t.assign slot v).lookup H = Function.update (t.lookup H) key v := by
  have S' := S.assign place v
  have same : ∀ k slot', (t.assign slot v).Located H k slot' ↔ t.Located H k slot' := by
    intro k slot'
    cases slot with
    | array i =>
        cases slot' <;> simp [Located, HashTable.assign, sizearray, HashTable.keyAt]
    | node i =>
        obtain ⟨n, cell, held⟩ := keyAt_eq_some.mp place
        cases slot' with
        | array j => simp [Located, HashTable.assign, sizearray, cell]
        | node j =>
            simp only [Located, HashTable.assign, cell, keyAt_eq_some]
            by_cases ji : j = i
            · rw [ji, Pool.put_cell_self cell, cell]
              simp
            · rw [Pool.put_cell_of_ne _ ji]
  funext k
  by_cases hk : k = key
  · subst hk
    rw [Function.update_self, lookup_of_located S' ((same k slot).mpr place)]
    cases slot with
    | array i =>
        have inside := place.2
        simp only [sizearray] at inside
        simp [HashTable.value, HashTable.assign, inside]
    | node i =>
        obtain ⟨n, cell, held⟩ := keyAt_eq_some.mp place
        simp [HashTable.value, HashTable.assign, cell, Pool.put_cell_self cell]
  · rw [Function.update_of_ne hk]
    by_cases absent : ∀ slot', ¬ t.Located H k slot'
    · rw [lookup_of_absent S absent,
        lookup_of_absent S' fun slot' place' => absent slot' ((same k slot').mp place')]
    · push Not at absent
      obtain ⟨slot', place'⟩ := absent
      have apart : slot' ≠ slot := by
        rintro rfl
        exact hk (located_unique place place')
      rw [lookup_of_located S place', lookup_of_located S' ((same k slot').mpr place')]
      cases slot with
      | array i =>
          cases slot' with
          | array j =>
              have ne : i ≠ j := fun h => apart (h ▸ rfl)
              simp [HashTable.value, HashTable.assign, ne]
          | node j => rfl
      | node i =>
          obtain ⟨n, cell, held⟩ := keyAt_eq_some.mp place
          cases slot' with
          | array j => simp [HashTable.value, HashTable.assign, cell]
          | node j =>
              have ne : j ≠ i := fun h => apart (h ▸ rfl)
              simp [HashTable.value, HashTable.assign, cell, Pool.put_cell_of_ne _ ne]

/-- What the collector does to an entry without a value is not seen by any
lookup: the key is dead, and its node still in the chain. -/
theorem removeentry_spec (S : t.Sound H) (i : Nat) :
    (t.removeentry i).Sound H ∧ (t.removeentry i).lookup H = t.lookup H := by
  unfold removeentry
  split
  · rename_i k next cell
    split_ifs with collectable
    · have S' := S.renode (q := t.node.put i ⟨⟨.dead k, .nil⟩, next⟩) cell (by simp) rfl
        (.inr ⟨rfl, k, rfl, rfl⟩) (fun value => absurd rfl value)
      refine ⟨S', funext fun key => lookup_congr S S' rfl fun v value => ?_⟩
      constructor
      · rintro ⟨j, next', cell'⟩
        by_cases ji : j = i
        · rw [ji, Pool.put_cell_self cell] at cell'
          cases cell'
        · rw [Pool.put_cell_of_ne _ ji] at cell'
          exact ⟨j, next', cell'⟩
      · rintro ⟨j, next', cell'⟩
        have ji : j ≠ i := by
          rintro rfl
          rw [cell] at cell'
          cases cell'
          exact value rfl
        exact ⟨j, next', (Pool.put_cell_of_ne _ ji _).trans cell'⟩
    · exact ⟨S, rfl⟩
  · exact ⟨S, rfl⟩

/-! ### New keys -/

/-- The free position is the last one without a key; the search ends only when
every node has one. By induction on where it starts. -/
theorem getfreepos_spec {node : Pool NodeEntry} {lastfree : Nat}
    (allocated : ∀ i < lastfree, node.cell i ≠ none) :
    (∃ n, getfreepos node lastfree = (some n, n) ∧ n < lastfree ∧
      nodeLabels.usedAt node n = false ∧
      ∀ i, n < i → i < lastfree → nodeLabels.usedAt node i = true) ∨
    getfreepos node lastfree = (none, 0) ∧
      ∀ i < lastfree, nodeLabels.usedAt node i = true := by
  induction lastfree with
  | zero => exact .inr ⟨rfl, fun i below => absurd below (Nat.not_lt_zero i)⟩
  | succ last ih =>
      obtain ⟨⟨⟨k, v⟩, next⟩, cell⟩ := Option.ne_none_iff_exists'.mp (allocated last (by omega))
      by_cases free : k = .nil
      · subst free
        refine .inl ⟨last, by simp only [getfreepos, cell], by omega, ?_, fun i low high => ?_⟩
        · rw [Labels.usedAt_eq cell]
          rfl
        · omega
      · have used : nodeLabels.usedAt node last = true := by
          rw [Labels.usedAt_eq cell]
          simpa [nodeLabels] using free
        have skip : getfreepos node (last + 1) = getfreepos node last := by
          rw [getfreepos]
          split
          · rename_i other
            rw [cell] at other
            cases other
            exact absurd rfl free
          · rfl
        rw [skip]
        rcases ih fun i below => allocated i (by omega) with
          ⟨n, found, below, unused, above⟩ | ⟨found, all⟩
        · refine .inl ⟨n, found, by omega, unused, fun i low high => ?_⟩
          by_cases here : i = last
          · rw [here]
            exact used
          · exact above i low (by omega)
        · refine .inr ⟨found, fun i below => ?_⟩
          by_cases here : i = last
          · rw [here]
            exact used
          · exact all i (by omega)

/-- Every node in use holds a key that can be searched for. -/
def HashTable.Clean (t : HashTable) : Prop :=
  ∀ i, nodeLabels.usedAt t.node i = true → ∃ k, t.keyAt i = some k

/-- A new key is in the table, with no value; nothing else is seen to change. -/
structure Added (H : Hashes) (t : HashTable) (key : TValue) (t' : HashTable) (slot : Slot) :
    Prop where
  sound : t'.Sound H
  located : t'.Located H key slot
  empty : t'.value slot = .nil
  others : ∀ k, k ≠ key → t'.lookup H k = t.lookup H k
  array : t'.array = t.array
  lsizenode : t'.lsizenode = t.lsizenode
  dummy : t'.dummy = t.dummy
  keys : ∀ i k, t'.keyAt i = some k → k = key ∨ ∃ j, t.keyAt j = some k
  clean : t.Clean → t'.Clean

section Newkey

variable {q : Pool NodeEntry} {lastfree i : Nat}

/-- The common part of the three ways a new key gets its node `i`. What differs
is how the other entries move, and that the chains are in order afterwards. -/
theorem Added.intro (S : t.Sound H) (real : t.dummy = false) (nonnil : key ≠ .nil)
    (number : key ≠ .number .nan) (absent : ∀ slot, ¬ t.Located H key slot)
    (scatter : Scatter nodeLabels (t.mainposition H) q) (size : q.bound = t.node.bound)
    (new : ∃ next, q.cell i = some ⟨⟨.tvk key, .nil⟩, next⟩)
    (old : ∀ j k v next, q.cell j = some ⟨⟨k, v⟩, next⟩ →
      j = i ∨ ∃ j' next', t.node.cell j' = some ⟨⟨k, v⟩, next'⟩)
    (kept : ∀ j k v next, v ≠ .nil → t.node.cell j = some ⟨⟨k, v⟩, next⟩ →
      ∃ j' next', q.cell j' = some ⟨⟨k, v⟩, next'⟩)
    (le : lastfree ≤ t.lastfree)
    (taken : ∀ j, lastfree ≤ j → j < t.sizenode → nodeLabels.usedAt q j = true) :
    Added H t key { t with node := q, lastfree := lastfree } (.node i) := by
  obtain ⟨next, atI⟩ := new
  have outside : ¬ t.InArray H key :=
    fun inside => absent _ ((located_inArray S inside _).mpr rfl)
  have keys : ∀ j k, nodeLabels.keyAt q j = some k → k = key ∨ ∃ j', t.keyAt j' = some k := by
    intro j k held
    obtain ⟨⟨⟨k', v⟩, next'⟩, cell, held⟩ := Labels.keyAt_eq_some.mp held
    obtain rfl := nodeLabels_key_iff.mp held
    rcases old j _ v next' cell with rfl | ⟨j', next'', cell'⟩
    · rw [atI] at cell
      cases cell
      exact .inl rfl
    · exact .inr ⟨j', keyAt_eq_some.mpr ⟨_, cell', rfl⟩⟩
  have sound : Sound H { t with node := q, lastfree := lastfree } := by
    constructor
    · exact S.sizearray_le
    · exact S.lsizenode_le
    · exact size.trans S.nodes
    · exact scatter
    · intro j k held
      rcases keys j k held with rfl | ⟨j', held'⟩
      · exact ⟨nonnil, number⟩
      · exact S.keyable j' k held'
    · intro j k held
      rcases keys j k held with rfl | ⟨j', held'⟩
      · exact outside
      · exact S.outside j' k held'
    · rintro j ⟨⟨k, v⟩, next'⟩ cell value
      rcases old j k v next' cell with rfl | ⟨j', next'', cell'⟩
      · simp only at cell
        rw [atI] at cell
        cases cell
        exact absurd rfl value
      · exact S.live j' ⟨⟨k, v⟩, next''⟩ cell' value
    · exact le.trans S.free_le
    · exact fun _ => taken
    · intro dummy
      rw [real] at dummy
      cases dummy
  refine ⟨sound, keyAt_eq_some.mpr ⟨_, atI, rfl⟩, ?_, ?_, rfl, rfl, rfl, keys, ?_⟩
  · simp [HashTable.value, atI]
  · intro k ne
    refine lookup_congr S sound rfl fun v value => ?_
    constructor
    · rintro ⟨j, next', cell⟩
      rcases old j _ v next' cell with rfl | found
      · simp only at cell
        rw [atI] at cell
        cases cell
        exact absurd rfl value
      · exact found
    · rintro ⟨j, next', cell⟩
      exact kept j _ v next' value cell
  · intro clean j used
    obtain ⟨⟨⟨k, v⟩, next'⟩, cell, busy⟩ := Labels.usedAt_eq_true.mp used
    rcases old j k v next' cell with rfl | ⟨j', next'', cell'⟩
    · exact ⟨key, keyAt_eq_some.mpr ⟨_, atI, rfl⟩⟩
    · obtain ⟨k', held⟩ := clean j' (Labels.usedAt_eq_true.mpr ⟨_, cell', busy⟩)
      obtain ⟨n, same, held⟩ := keyAt_eq_some.mp held
      rw [cell'] at same
      cases same
      exact ⟨k', keyAt_eq_some.mpr ⟨_, cell, held⟩⟩

/-- A node without a key is as it was made. -/
theorem idle_cell (S : t.Sound H) {j : Nat} (below : j < t.sizenode)
    (idle : nodeLabels.usedAt t.node j = false) :
    t.node.cell j = some ⟨⟨.nil, .nil⟩, none⟩ := by
  obtain ⟨⟨⟨k, v⟩, next⟩, cell⟩ :=
    Option.ne_none_iff_exists'.mp (S.scatter.allocated j (S.nodes ▸ below))
  have unlinked : next = none := by
    by_contra linked
    obtain ⟨b, rfl⟩ := Option.ne_none_iff_exists'.mp linked
    exact S.scatter.idle_not_linked idle b (Pool.succ_eq cell)
  rw [Labels.usedAt_eq cell, nodeLabels_used_iff] at idle
  simp only at idle
  subst idle
  have empty : v = .nil := by
    by_contra value
    obtain ⟨k, held⟩ := S.live j _ cell value
    cases held
  rw [cell, empty, unlinked]

/-- The main position is free, or its entry has no value. -/
theorem added_claim (S : t.Sound H) (real : t.dummy = false) (nonnil : key ≠ .nil)
    (number : key ≠ .number .nan) (absent : ∀ slot, ¬ t.Located H key slot) {k : NodeKey}
    {next : Option Nat} (atM : t.node.cell (t.mainposition H key) = some ⟨⟨k, .nil⟩, next⟩) :
    Added H t key
      { t with node := t.node.put (t.mainposition H key) ⟨⟨.tvk key, .nil⟩, next⟩ }
      (.node (t.mainposition H key)) := by
  set mp := t.mainposition H key with home
  have newM := Pool.put_cell_self atM ⟨⟨.tvk key, .nil⟩, next⟩
  have other : ∀ j, j ≠ mp → (t.node.put mp ⟨⟨.tvk key, .nil⟩, next⟩).cell j = t.node.cell j :=
    fun j ne => t.node.put_cell_of_ne ne _
  have used : ∀ j, nodeLabels.usedAt t.node j = true →
      nodeLabels.usedAt (t.node.put mp ⟨⟨.tvk key, .nil⟩, next⟩) j = true := by
    intro j busy
    by_cases jm : j = mp
    · rw [jm, Labels.usedAt_eq newM]
      rfl
    · simpa only [Labels.usedAt, other j jm] using busy
  refine Added.intro S real nonnil number absent ?_ (t.node.put_bound _ _) ⟨next, newM⟩
    ?_ ?_ (Nat.le_refl _) fun j low below => used j (S.taken real j low below)
  · refine S.scatter.relabel (t.node.put_bound _ _) ?_ ?_ used ?_ ?_
    · intro j below
      by_cases jm : j = mp
      · simp [jm, newM]
      · rw [other j jm]
        exact S.scatter.allocated j below
    · intro j
      by_cases jm : j = mp
      · rw [jm, Pool.succ_eq newM, Pool.succ_eq atM]
      · simp only [Pool.succ, other j jm]
    · intro j k' held
      by_cases jm : j = mp
      · rw [jm, Labels.keyAt_eq newM, nodeLabels_key_tvk] at held
        cases held
        exact .inr ⟨jm, fun j' held' => absent (.node j') held'⟩
      · left
        simpa only [Labels.keyAt, other j jm] using held
    · intro j k' former
      left
      by_cases jm : j = mp
      · rw [jm, Labels.formerAt_eq newM] at former
        cases former
      · simpa only [Labels.formerAt, other j jm] using former
  · intro j k' v next' cell
    by_cases jm : j = mp
    · exact .inl jm
    · exact .inr ⟨j, next', other j jm ▸ cell⟩
  · intro j k' v next' value cell
    have jm : j ≠ mp := by
      rintro rfl
      rw [atM] at cell
      cases cell
      exact value rfl
    exact ⟨j, next', (other j jm).trans cell⟩

/-- The colliding node is in its main position: the new key goes behind it. -/
theorem added_append (S : t.Sound H) (real : t.dummy = false) (nonnil : key ≠ .nil)
    (number : key ≠ .number .nan) (absent : ∀ slot, ¬ t.Located H key slot) {k v : TValue}
    {next : Option Nat} {n : Nat}
    (atM : t.node.cell (t.mainposition H key) = some ⟨⟨.tvk k, v⟩, next⟩)
    (home : t.mainposition H k = t.mainposition H key)
    (atN : t.node.cell n = some ⟨⟨.nil, .nil⟩, none⟩) (le : n ≤ t.lastfree)
    (above : ∀ j, n < j → j < t.sizenode → nodeLabels.usedAt t.node j = true) :
    Added H t key
      { t with
        node := (t.node.put n ⟨⟨.tvk key, .nil⟩, next⟩).put (t.mainposition H key)
          ⟨⟨.tvk k, v⟩, some n⟩
        lastfree := n }
      (.node n) := by
  set mp := t.mainposition H key with main
  have nm : n ≠ mp := by
    rintro same
    rw [same, atM] at atN
    cases atN
  set q := (t.node.put n ⟨⟨.tvk key, .nil⟩, next⟩).put mp ⟨⟨.tvk k, v⟩, some n⟩ with writes
  have newN : q.cell n = some ⟨⟨.tvk key, .nil⟩, next⟩ := by
    rw [writes, Pool.put_cell_of_ne _ nm, Pool.put_cell_self atN]
  have newM : q.cell mp = some ⟨⟨.tvk k, v⟩, some n⟩ :=
    Pool.put_cell_self ((t.node.put_cell_of_ne nm.symm _).trans atM) _
  have other : ∀ j, j ≠ n → j ≠ mp → q.cell j = t.node.cell j := by
    intro j jn jm
    rw [writes, Pool.put_cell_of_ne _ jm, Pool.put_cell_of_ne _ jn]
  have size : q.bound = t.node.bound := by simp [writes]
  refine Added.intro S real nonnil number absent ?_ size ⟨next, newN⟩ ?_ ?_ le ?_
  · have appends : Appends nodeLabels (t.mainposition H) t.node q key k n ⟨.nil, .nil⟩
        ⟨.tvk k, v⟩ ⟨.tvk key, .nil⟩ next :=
      { table := S.scatter
        absent := fun j held => absent (.node j) held
        key := nodeLabels_key_tvk k v
        home, atF := atN, fresh := rfl, atM, size, newM, newF := newN
        key' := nodeLabels_key_tvk key .nil
        other }
    exact appends.scatter
  · intro j k' v' next' cell
    by_cases jn : j = n
    · exact .inl jn
    by_cases jm : j = mp
    · rw [jm, newM] at cell
      cases cell
      exact .inr ⟨mp, next, atM⟩
    · exact .inr ⟨j, next', other j jn jm ▸ cell⟩
  · intro j k' v' next' value cell
    by_cases jm : j = mp
    · rw [jm, atM] at cell
      cases cell
      exact ⟨mp, some n, newM⟩
    · have jn : j ≠ n := by
        rintro rfl
        rw [atN] at cell
        cases cell
        exact value rfl
      exact ⟨j, next', (other j jn jm).trans cell⟩
  · intro j low below
    by_cases jn : j = n
    · rw [jn, Labels.usedAt_eq newN]
      rfl
    by_cases jm : j = mp
    · rw [jm, Labels.usedAt_eq newM]
      rfl
    · rw [Labels.usedAt, other j jn jm]
      exact above j (by omega) below

/-- The colliding node is out of its main position: it moves to the free one. -/
theorem added_displace (S : t.Sound H) (real : t.dummy = false) (nonnil : key ≠ .nil)
    (number : key ≠ .number .nan) (absent : ∀ slot, ¬ t.Located H key slot) {k v : TValue}
    {next : Option Nat} {n prev : Nat} {w : NodeEntry}
    (atM : t.node.cell (t.mainposition H key) = some ⟨⟨.tvk k, v⟩, next⟩)
    (away : t.mainposition H k ≠ t.mainposition H key)
    (atP : t.node.cell prev = some ⟨w, some (t.mainposition H key)⟩)
    (atN : t.node.cell n = some ⟨⟨.nil, .nil⟩, none⟩) (le : n ≤ t.lastfree)
    (above : ∀ j, n < j → j < t.sizenode → nodeLabels.usedAt t.node j = true) :
    Added H t key
      { t with
        node := ((t.node.put prev ⟨w, some n⟩).put n ⟨⟨.tvk k, v⟩, next⟩).put
          (t.mainposition H key) ⟨⟨.tvk key, .nil⟩, none⟩
        lastfree := n }
      (.node (t.mainposition H key)) := by
  set mp := t.mainposition H key with main
  have nm : n ≠ mp := by
    rintro same
    rw [same, atM] at atN
    cases atN
  have pn : prev ≠ n := by
    rintro same
    rw [same, atN] at atP
    cases atP
  have pm : prev ≠ mp := by
    rintro same
    exact S.scatter.succ_ne mp (Pool.succ_eq (same ▸ atP))
  set q := ((t.node.put prev ⟨w, some n⟩).put n ⟨⟨.tvk k, v⟩, next⟩).put mp
    ⟨⟨.tvk key, .nil⟩, none⟩ with writes
  have newP : q.cell prev = some ⟨w, some n⟩ := by
    rw [writes, Pool.put_cell_of_ne _ pm, Pool.put_cell_of_ne _ pn, Pool.put_cell_self atP]
  have newN : q.cell n = some ⟨⟨.tvk k, v⟩, next⟩ := by
    rw [writes, Pool.put_cell_of_ne _ nm,
      Pool.put_cell_self ((t.node.put_cell_of_ne pn.symm _).trans atN)]
  have newM : q.cell mp = some ⟨⟨.tvk key, .nil⟩, none⟩ := by
    refine Pool.put_cell_self (m := ⟨⟨.tvk k, v⟩, next⟩) ?_ _
    rw [Pool.put_cell_of_ne _ nm.symm, Pool.put_cell_of_ne _ pm.symm, atM]
  have other : ∀ j, j ≠ prev → j ≠ n → j ≠ mp → q.cell j = t.node.cell j := by
    intro j jp jn jm
    rw [writes, Pool.put_cell_of_ne _ jm, Pool.put_cell_of_ne _ jn, Pool.put_cell_of_ne _ jp]
  have size : q.bound = t.node.bound := by simp [writes]
  have usedP : nodeLabels.usedAt t.node prev = true :=
    (S.scatter.linked prev mp (Pool.succ_eq atP)).1
  refine Added.intro S real nonnil number absent ?_ size ⟨none, newM⟩ ?_ ?_ le ?_
  · exact S.scatter.displace (fun j held => absent (.node j) held) (nodeLabels_key_tvk k v)
      away atN rfl atP atM size newP newN newM (nodeLabels_key_tvk key .nil) other
  · intro j k' v' next' cell
    by_cases jm : j = mp
    · exact .inl jm
    by_cases jn : j = n
    · rw [jn, newN] at cell
      cases cell
      exact .inr ⟨mp, next, atM⟩
    by_cases jp : j = prev
    · rw [jp, newP] at cell
      cases cell
      exact .inr ⟨prev, some mp, atP⟩
    · exact .inr ⟨j, next', other j jp jn jm ▸ cell⟩
  · intro j k' v' next' value cell
    by_cases jm : j = mp
    · rw [jm, atM] at cell
      cases cell
      exact ⟨n, next, newN⟩
    by_cases jp : j = prev
    · rw [jp, atP] at cell
      cases cell
      exact ⟨prev, some n, newP⟩
    · have jn : j ≠ n := by
        rintro rfl
        rw [atN] at cell
        cases cell
        exact value rfl
      exact ⟨j, next', (other j jp jn jm).trans cell⟩
  · intro j low below
    by_cases jm : j = mp
    · rw [jm, Labels.usedAt_eq newM]
      rfl
    by_cases jn : j = n
    · rw [jn, Labels.usedAt_eq newN]
      rfl
    by_cases jp : j = prev
    · rw [jp, Labels.usedAt_eq newP, ← usedP, Labels.usedAt_eq atP]
    · rw [Labels.usedAt, other j jp jn jm]
      exact above j (by omega) below

/-- A new key is put into its node, or there is no free place for it. Its main
position is free, or taken by a key at home there, or by a key from elsewhere.
-/
theorem newkey_spec (S : t.Sound H) (nonnil : key ≠ .nil) (number : key ≠ .number .nan)
    (absent : ∀ slot, ¬ t.Located H key slot)
    (full : HashTable → TValue → TableM (HashTable × Slot)) :
    (∃ t' slot, newkey H full t key = .ok (t', slot) ∧ Added H t key t' slot) ∨
    newkey H full t key = full { t with lastfree := 0 } key ∧
      (t.dummy = true ∨ ∀ i < t.sizenode, nodeLabels.usedAt t.node i = true) := by
  have mainLt : t.mainposition H key < t.node.bound := S.nodes ▸ t.mainposition_lt H key
  have allocated := S.scatter.allocated
  obtain ⟨⟨⟨k, v⟩, next⟩, atM⟩ := Option.ne_none_iff_exists'.mp (allocated _ mainLt)
  -- "main position is taken?"
  by_cases collides : v ≠ .nil ∨ t.dummy = true
  · have firstLt : ∀ i < t.lastfree, t.node.cell i ≠ none := by
      intro i below
      have high := S.free_le
      exact allocated i (S.nodes ▸ by omega)
    rcases getfreepos_spec firstLt with ⟨n, found, below, unused, later⟩ | ⟨found, all⟩
    · left
      have real : t.dummy = false := by
        by_contra dummy
        rw [(S.isdummy (Bool.eq_true_of_not_eq_false dummy)).2.1] at below
        exact absurd below (Nat.not_lt_zero n)
      have value : v ≠ .nil := collides.resolve_right (by simp [real])
      have nLt : n < t.sizenode := below.trans_le S.free_le
      have atN := idle_cell S nLt unused
      obtain ⟨k, rfl⟩ : ∃ k', k = .tvk k' := S.live _ _ atM value
      have above : ∀ j, n < j → j < t.sizenode → nodeLabels.usedAt t.node j = true := by
        intro j low high
        by_cases early : j < t.lastfree
        · exact later j low early
        · exact S.taken real j (by omega) high
      -- "is colliding node out of its main position?"
      by_cases away : t.mainposition H k = t.mainposition H key
      · refine ⟨_, _, ?_, added_append S real nonnil number absent atM away atN below.le above⟩
        simp only [newkey, atM, found, mainpositionOf, atN, if_pos collides, TableM.ok_bind]
        rw [if_neg (not_not_intro away)]
        rfl
      · have held : nodeLabels.keyAt t.node (t.mainposition H key) = some k :=
          Labels.keyAt_eq atM
        obtain ⟨prev, walk, link⟩ := S.scatter.before held away
        obtain ⟨⟨w, nx⟩, atP, same⟩ := Option.bind_eq_some_iff.mp link
        simp only at same
        subst same
        refine ⟨_, _, ?_,
          added_displace S real nonnil number absent atM away atP atN below.le above⟩
        simp only [newkey, atM, found, mainpositionOf, walk, atP, if_pos collides,
          TableM.ok_bind]
        rw [if_pos away]
        rfl
    · right
      refine ⟨?_, ?_⟩
      · simp only [newkey, atM, found, if_pos collides]
      · by_cases dummy : t.dummy = true
        · exact .inl dummy
        · right
          intro i below
          by_cases early : i < t.lastfree
          · exact all i early
          · exact S.taken (Bool.eq_false_iff.mpr dummy) i (by omega) below
  · left
    push Not at collides
    obtain ⟨rfl, dummy⟩ := collides
    refine ⟨_, _, ?_, added_claim S (Bool.eq_false_iff.mpr dummy) nonnil number absent atM⟩
    have free : ¬ ((TValue.nil : TValue) ≠ .nil ∨ t.dummy = true) := by simp [dummy]
    simp only [newkey, atM, if_neg free]

end Newkey

/-! ### Pointers for writing -/

/-- A pointer to the value of a key, in a table that is the same map. -/
structure SlotFor (H : Hashes) (t : HashTable) (key : TValue) (t' : HashTable) (slot : Slot) :
    Prop where
  sound : t'.Sound H
  located : t'.Located H key slot
  lookup : t'.lookup H = t.lookup H
  sizearray : t'.sizearray = t.sizearray
  lsizenode : t'.lsizenode = t.lsizenode
  dummy : t'.dummy = t.dummy
  keys : ∀ i k, t'.keyAt i = some k →
    k = key ∧ ¬ t.InArray H key ∨ ∃ j, t.keyAt j = some k
  clean : t.Clean → t'.Clean

/-- `luaH_set` finds the key, adds it, or there is no free place and the table
is left to `full`. -/
theorem luaHSetWith_spec (S : t.Sound H) (nonnil : key ≠ .nil) (number : key ≠ .number .nan)
    (full : HashTable → TValue → TableM (HashTable × Slot)) :
    (∃ t' slot, luaHSetWith H full t key = .ok (t', slot) ∧ SlotFor H t key t' slot) ∨
    luaHSetWith H full t key = full { t with lastfree := 0 } key ∧
      (∀ slot, ¬ t.Located H key slot) ∧
      (t.dummy = true ∨ ∀ i < t.sizenode, nodeLabels.usedAt t.node i = true) := by
  obtain ⟨r, found, spec⟩ := luaHGet_spec S key
  cases r with
  | some slot =>
      left
      have place := (spec slot).mp rfl
      refine ⟨t, slot, by simp only [luaHSetWith, found, TableM.ok_bind]; rfl, ?_⟩
      exact ⟨S, place, rfl, rfl, rfl, rfl, fun i k held => .inr ⟨i, held⟩, id⟩
  | none =>
      have absent : ∀ slot, ¬ t.Located H key slot := by
        intro slot place
        cases (spec slot).mpr place
      have outside : ¬ t.InArray H key :=
        fun inside => absent _ ((located_inArray S inside _).mpr rfl)
      have step : luaHSetWith H full t key = newkey H full t key := by
        simp only [luaHSetWith, found, TableM.ok_bind]
      rw [step]
      rcases newkey_spec S nonnil number absent full with ⟨t', slot, result, added⟩ | ⟨result, all⟩
      · left
        refine ⟨t', slot, result, ?_⟩
        have same : t'.lookup H = t.lookup H := by
          funext k
          by_cases hk : k = key
          · rw [hk, lookup_of_located added.sound added.located, added.empty,
              lookup_of_absent S absent]
          · exact added.others k hk
        have sizearray : t'.sizearray = t.sizearray := by
          simp only [HashTable.sizearray, added.array]
        refine ⟨added.sound, added.located, same, sizearray, added.lsizenode, added.dummy, ?_,
          added.clean⟩
        intro i k held
        rcases added.keys i k held with rfl | old
        · exact .inl ⟨rfl, outside⟩
        · exact .inr old
      · exact .inr ⟨result, absent, all⟩

section Assign

variable (t : HashTable) (slot : Slot) (v : TValue)

@[simp] theorem assign_sizearray : (t.assign slot v).sizearray = t.sizearray := by
  cases slot with
  | array i => simp [HashTable.assign, sizearray]
  | node i =>
      simp only [HashTable.assign]
      split <;> rfl

@[simp] theorem assign_lsizenode : (t.assign slot v).lsizenode = t.lsizenode := by
  cases slot with
  | array i => rfl
  | node i =>
      simp only [HashTable.assign]
      split <;> rfl

@[simp] theorem assign_dummy : (t.assign slot v).dummy = t.dummy := by
  cases slot with
  | array i => rfl
  | node i =>
      simp only [HashTable.assign]
      split <;> rfl

/-- An assignment changes no key. -/
theorem assign_labels (i : Nat) : (t.assign slot v).keyAt i = t.keyAt i ∧
    nodeLabels.usedAt (t.assign slot v).node i = nodeLabels.usedAt t.node i := by
  cases slot with
  | array j => exact ⟨rfl, rfl⟩
  | node j =>
      simp only [HashTable.assign]
      split
      · rename_i n cell
        by_cases ij : i = j
        · have written := Pool.put_cell_self cell ⟨{ n.val with val := v }, n.next⟩
          subst ij
          constructor
          · simp only [keyAt, Labels.keyAt, written, cell]
            rfl
          · simp only [Labels.usedAt, written, cell]
            rfl
        · simp only [keyAt, Labels.keyAt, Labels.usedAt, Pool.put_cell_of_ne _ ij, and_self]
      · simp only [and_self]

theorem assign_clean : t.Clean → (t.assign slot v).Clean := by
  intro clean i used
  rw [(assign_labels t slot v i).2] at used
  rw [(assign_labels t slot v i).1]
  exact clean i used

end Assign

end ProfiLua
