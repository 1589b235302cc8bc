import ProfiLua.Dll.Call

/-!
Reading a result table back into the host's arrays.

The three loops fetch the element of a channel, store it and pop it. On a plain
table with well-typed elements each round stores one cell and leaves the stack
as it was (`run_readBack`); what the arrays hold afterwards is `Host.stored`.
-/

namespace ProfiLua

open Program

variable {σ : Type} (E : Env σ)

/-! ### What the loops store -/

/-- The arrays after the stores for the channels from `lo` up to `hi`. -/
def Host.stored (store : Nat → Host → Host) (lo hi : Nat) (h : Host) : Host :=
  (List.range' lo (hi - lo)).foldl (fun h i => store i h) h

theorem Host.stored_of_le (store : Nat → Host → Host) {lo hi : Nat} (le : hi ≤ lo) (h : Host) :
    Host.stored store lo hi h = h := by
  simp [Host.stored, Nat.sub_eq_zero_of_le le]

@[simp] theorem Host.stored_self (store : Nat → Host → Host) (lo : Nat) (h : Host) :
    Host.stored store lo lo h = h :=
  Host.stored_of_le store (Nat.le_refl lo) h

/-- The last round of the loop comes last. -/
theorem Host.stored_succ (store : Nat → Host → Host) {lo hi : Nat} (le : lo ≤ hi) (h : Host) :
    Host.stored store lo (hi + 1) h = store hi (Host.stored store lo hi h) := by
  obtain ⟨n, rfl⟩ := Nat.exists_eq_add_of_le le
  have more : lo + n + 1 - lo = n + 1 := by omega
  have here : lo + n - lo = n := by omega
  simp only [Host.stored]
  rw [more, here, List.range'_concat, List.foldl_append]
  simp

/-- A number into a cell of `POutput`, a string into one of `PString`. -/
def Host.storeResult (C : CLib) (marked : Nat → Bool) (elem : Nat → TValue) (i : Nat) (h : Host) :
    Host :=
  if marked i then { h with pString := Function.update h.pString i (cstr ((elem i).text C)) }
  else { h with pOutput := Function.update h.pOutput i ((elem i).num C) }

/-- The start stores numbers only. -/
def Host.storeStartResult (C : CLib) (marked : Nat → Bool) (elem : Nat → TValue) (i : Nat)
    (h : Host) : Host :=
  if marked i then h else { h with pOutput := Function.update h.pOutput i ((elem i).num C) }

/-- `PUser[i]` is the entry `i + 1` of the table. -/
def Host.storePUser (C : CLib) (elem : Nat → TValue) (i : Nat) (h : Host) : Host :=
  { h with pUser := Function.update h.pUser i ((elem (i + 1)).num C) }

/-- A cell that only its own channel writes, if that channel writes at all. So
after the whole loop it holds what that round stored, or what it held before;
the rounds before and after do not touch it. -/
theorem Host.stored_cell {α : Type} (store : Nat → Host → Host) (cell : Host → Nat → α)
    (new : Nat → α) (writes : Nat → Prop) [DecidablePred writes]
    (stores : ∀ i h j, cell (store i h) j = if j = i ∧ writes i then new i else cell h j)
    (lo hi : Nat) (h : Host) (j : Nat) :
    cell (Host.stored store lo hi h) j =
      if lo ≤ j ∧ j < hi ∧ writes j then new j else cell h j := by
  by_cases le : lo ≤ hi
  swap
  · rw [Host.stored_of_le store (by omega), if_neg (by omega)]
  obtain ⟨n, rfl⟩ := Nat.exists_eq_add_of_le le
  induction n with
  | zero =>
      rw [Nat.add_zero, Host.stored_self, if_neg (by omega)]
  | succ n ih =>
      rw [← Nat.add_assoc, Host.stored_succ store (by omega), stores, ih (by omega)]
      by_cases here : j = lo + n
      · subst here
        by_cases written : writes (lo + n)
        · rw [if_pos ⟨rfl, written⟩, if_pos ⟨by omega, by omega, written⟩]
        · rw [if_neg (fun both => written both.2), if_neg (by omega),
            if_neg (fun all => written all.2.2)]
      · rw [if_neg (fun both => here both.1)]
        have same : (lo ≤ j ∧ j < lo + n ∧ writes j) ↔ (lo ≤ j ∧ j < lo + n + 1 ∧ writes j) := by
          constructor
          · rintro ⟨low, high, written⟩
            exact ⟨low, by omega, written⟩
          · rintro ⟨low, high, written⟩
            exact ⟨low, by omega, written⟩
        simp only [same]

/-- What no channel writes stays. By induction on the channels still to come. -/
theorem Host.stored_same {α : Type} {store : Nat → Host → Host} (part : Host → α)
    (stores : ∀ i h, part (store i h) = part h) (lo hi : Nat) (h : Host) :
    part (Host.stored store lo hi h) = part h := by
  unfold Host.stored
  generalize List.range' lo (hi - lo) = channels
  induction channels generalizing h with
  | nil => rfl
  | cons i rest ih =>
      rw [List.foldl_cons, ih, stores]

/-! ### Well-typed results -/

/-- The value of an output channel can be stored: a number, or for a string pin
a string. -/
def Fits (C : CLib) (marked : Nat → Bool) (elem : Nat → TValue) (i : Nat) : Prop :=
  if marked i then (elem i).isstring else (elem i).isnumber C

/-- The start needs no string. -/
def FitsStart (C : CLib) (marked : Nat → Bool) (elem : Nat → TValue) (i : Nat) : Prop :=
  marked i ∨ (elem i).isnumber C

/-- A reply that `CCalculateEx` can store whole. -/
def Reply.Fits (C : CLib) (outputs : Nat) (marked : Nat → Bool) : Reply → Prop
  | .table plain elem => plain = true ∧ ∀ i, 1 ≤ i → i < outputs → ProfiLua.Fits C marked elem i
  | _ => False

/-- A reply that the start can store whole. -/
def Reply.FitsStart (C : CLib) (outputs : Nat) (marked : Nat → Bool) : Reply → Prop
  | .table plain elem =>
      plain = true ∧ ∀ i, 1 ≤ i → i < outputs → ProfiLua.FitsStart C marked elem i
  | _ => False

/-- A `gPUser` that can be read back whole. -/
def Reply.FitsPUser (C : CLib) : Reply → Prop
  | .table plain elem => plain = true ∧ ∀ i, i < 100 → (elem (i + 1)).isnumber C
  | _ => False

section Decidable

variable {C : CLib} {outputs : Nat} {marked : Nat → Bool}

instance {elem : Nat → TValue} {i : Nat} : Decidable (Fits C marked elem i) :=
  inferInstanceAs (Decidable ((if marked i then (elem i).isstring else (elem i).isnumber C) = true))

instance {elem : Nat → TValue} {i : Nat} : Decidable (FitsStart C marked elem i) :=
  inferInstanceAs (Decidable (marked i = true ∨ (elem i).isnumber C = true))

/-- The channels of a table can be gone through. -/
theorem channels_iff {p : Nat → Prop} :
    (∀ i, i < outputs → 1 ≤ i → p i) ↔ ∀ i, 1 ≤ i → i < outputs → p i :=
  ⟨fun h i pos lt => h i lt pos, fun h i lt pos => h i pos lt⟩

instance : DecidablePred (Reply.Fits C outputs marked)
  | .table _ _ => decidable_of_iff _ (and_congr Iff.rfl channels_iff)
  | .value _ => .isFalse id
  | .missing => .isFalse id

instance : DecidablePred (Reply.FitsStart C outputs marked)
  | .table _ _ => decidable_of_iff _ (and_congr Iff.rfl channels_iff)
  | .value _ => .isFalse id
  | .missing => .isFalse id

instance : DecidablePred (Reply.FitsPUser C)
  | .table plain elem =>
      inferInstanceAs (Decidable (plain = true ∧ ∀ i, i < 100 → (elem (i + 1)).isnumber C = true))
  | .value _ => .isFalse id
  | .missing => .isFalse id

end Decidable

/-- The entries of a reply. -/
def Reply.elem : Reply → Nat → TValue
  | .table _ elem => elem
  | _ => fun _ => .nil

/-! ### The arrays after a loop -/

section Stored

variable (C : CLib) (marked : Nat → Bool) (elem : Nat → TValue) (h : Host) (hi j : Nat)

/-- Which outputs a step stores: those that were read and are no string pins. -/
theorem storedResult_pOutput :
    (h.stored (Host.storeResult C marked elem) 1 hi).pOutput j =
      if 1 ≤ j ∧ j < hi ∧ marked j = false then (elem j).num C else h.pOutput j := by
  refine Host.stored_cell _ Host.pOutput (fun i => (elem i).num C) (fun i => marked i = false)
    (fun i h j => ?_) 1 hi h j
  unfold Host.storeResult
  cases marked i with
  | true => simp
  | false => simp [Function.update_apply]

/-- And which texts: those of the string pins that were read. -/
theorem storedResult_pString :
    (h.stored (Host.storeResult C marked elem) 1 hi).pString j =
      if 1 ≤ j ∧ j < hi ∧ marked j = true then cstr ((elem j).text C) else h.pString j := by
  refine Host.stored_cell _ Host.pString (fun i => cstr ((elem i).text C))
    (fun i => marked i = true)
    (fun i h j => ?_) 1 hi h j
  unfold Host.storeResult
  cases marked i with
  | true => simp [Function.update_apply]
  | false => simp

/-- The start stores the same outputs, and no texts. -/
theorem storedStart_pOutput :
    (h.stored (Host.storeStartResult C marked elem) 1 hi).pOutput j =
      if 1 ≤ j ∧ j < hi ∧ marked j = false then (elem j).num C else h.pOutput j := by
  refine Host.stored_cell _ Host.pOutput (fun i => (elem i).num C) (fun i => marked i = false)
    (fun i h j => ?_) 1 hi h j
  unfold Host.storeStartResult
  cases marked i with
  | true => simp
  | false => simp [Function.update_apply]

theorem storeResult_inputs (i : Nat) (h : Host) :
    (Host.storeResult C marked elem i h).pInput = h.pInput ∧
      (Host.storeResult C marked elem i h).pUser = h.pUser := by
  unfold Host.storeResult
  split <;> exact ⟨rfl, rfl⟩

/-- What the host wrote for the script stays as it is. -/
theorem storedResult_inputs (lo : Nat) :
    (h.stored (Host.storeResult C marked elem) lo hi).pInput = h.pInput ∧
      (h.stored (Host.storeResult C marked elem) lo hi).pUser = h.pUser :=
  ⟨Host.stored_same _ (fun i h => (storeResult_inputs C marked elem i h).1) lo hi h,
    Host.stored_same _ (fun i h => (storeResult_inputs C marked elem i h).2) lo hi h⟩

theorem storedStart_pUser (lo : Nat) :
    (h.stored (Host.storeStartResult C marked elem) lo hi).pUser = h.pUser := by
  refine Host.stored_same _ (fun i h => ?_) lo hi h
  unfold Host.storeStartResult
  split <;> rfl

/-- `CSimStop` reads element `j + 1` of the table into cell `j`. -/
theorem storedPUser_pUser :
    (h.stored (Host.storePUser C elem) 0 hi).pUser j =
      if j < hi then (elem (j + 1)).num C else h.pUser j := by
  have cells := Host.stored_cell (Host.storePUser C elem) Host.pUser
    (fun i => (elem (i + 1)).num C) (fun _ => True)
    (fun i h j => by simp [Host.storePUser, Function.update_apply]) 0 hi h j
  simpa using cells

end Stored

/-! ### One round -/

variable {s : Dll σ} {v : TValue} {rest stack : List TValue} {heap : Heap σ} {bar : Int}

/-- The element is read from the table the loop is about. -/
theorem run_fetchElement {t : Nat} (plain : (heap.table t).metatable = false) (i : Nat) :
    fetchElement E (.table t) i (s.withL ⟨.table t :: stack, heap⟩) =
      .ok ⟨⟩ (s.withL
        ⟨(heap.table t).node (.number (.ofNat i)) :: .table t :: stack, heap⟩) := by
  refine ok_bind (run_onL (run_push _ _)) (ok_bind (run_check_pass ?_) ?_)
  · exact decide_eq_true index2adr_second
  · exact run_onL (run_luaGettable E plain)

/-- In the globals of `s`, `x` stores the value on top of the stack in the host's
arrays. -/
def StoresTop (s : Dll σ) (x : DllM σ PUnit) (v : TValue) (f : Host → Host) : Prop :=
  ∀ h rest heap, ∃ v', x (Dll.withL { s with host := h } ⟨v :: rest, heap⟩) =
    .ok ⟨⟩ (Dll.withL { s with host := f h } ⟨v' :: rest, heap⟩)

/-- A number is stored and stays on the stack, for the caller to pop. -/
theorem storeNumber_stores {cell : LuaNumber → DllM σ PUnit} {bad : DllM σ PUnit}
    {f : Host → Host} (number : v.isnumber E.toCLib = true)
    (hc : ∀ t : Dll σ, cell (v.num E.toCLib) t = .ok ⟨⟩ { t with host := f t.host }) :
    StoresTop s (storeNumber E bar cell bad) v f := by
  intro h rest heap
  refine ⟨v, ok_bind (run_onL (run_luaIsnumber E)) (ok_ite_true number ?_)⟩
  exact ok_bind (run_onL (run_luaTonumber E)) (hc _)

theorem storeString_stores {i : Nat} (text : v.isstring = true) :
    StoresTop s (storeString E bar i) v fun h =>
      { h with pString := Function.update h.pString i (cstr (v.text E.toCLib)) } := by
  intro h rest heap
  obtain ⟨v', read⟩ : ∃ v', luaTostring E ⟨v :: rest, heap⟩ =
      .ok (v.text E.toCLib) ⟨v' :: rest, heap⟩ := run_luaTostring E
  refine ⟨v', ok_bind (run_onL run_luaIsstring) (ok_ite_true text ?_)⟩
  exact ok_bind (run_onL read) rfl

variable {elem : Nat → TValue} {i : Nat}

theorem storePOutput_stores {i : Nat} {bad : DllM σ PUnit} (number : v.isnumber E.toCLib = true) :
    StoresTop s (storeNumber E bar (setPOutput i) bad) v fun h =>
      { h with pOutput := Function.update h.pOutput i (v.num E.toCLib) } :=
  storeNumber_stores E number fun _ => rfl

theorem storeOutput_stores (inside : i < markerSize) (fits : Fits E.toCLib s.outputMarks elem i) :
    StoresTop s (storeOutput E bar (storeString E bar) i) (elem i)
      (Host.storeResult E.toCLib s.outputMarks elem i) := by
  intro h rest heap
  by_cases mark : s.outputMarks i = true
  · simp only [Fits, mark, if_true] at fits
    have store : StoresTop s (storeString E bar i) (elem i) _ := storeString_stores E fits
    obtain ⟨v', stored⟩ := store h rest heap
    refine ⟨v', ok_bind (run_outMarked inside _) (ok_ite_true mark ?_)⟩
    simpa only [Host.storeResult, mark, if_true] using stored
  · simp only [Fits, mark, Bool.false_eq_true, if_false] at fits
    have store : StoresTop s (storeNumber E bar (setPOutput i) (setError 1)) (elem i) _ :=
      storePOutput_stores E fits
    obtain ⟨v', stored⟩ := store h rest heap
    refine ⟨v', ok_bind (run_outMarked inside _) (ok_ite_false mark ?_)⟩
    simpa only [Host.storeResult, mark, Bool.false_eq_true, if_false] using stored

theorem storeStartOutput_stores (inside : i < markerSize)
    (fits : FitsStart E.toCLib s.outputMarks elem i) :
    StoresTop s (storeOutput E bar (fun _ => pure ()) i) (elem i)
      (Host.storeStartResult E.toCLib s.outputMarks elem i) := by
  intro h rest heap
  by_cases mark : s.outputMarks i = true
  · refine ⟨elem i, ok_bind (run_outMarked inside _) (ok_ite_true mark ?_)⟩
    simp only [Host.storeStartResult, mark, if_true]
    rfl
  · have store : StoresTop s (storeNumber E bar (setPOutput i) (setError 1)) (elem i) _ :=
      storePOutput_stores E (fits.resolve_left mark)
    obtain ⟨v', stored⟩ := store h rest heap
    refine ⟨v', ok_bind (run_outMarked inside _) (ok_ite_false mark ?_)⟩
    simpa only [Host.storeStartResult, mark, Bool.false_eq_true, if_false] using stored

/-! ### The loops -/

/-- On a plain table, rounds that store keep the stack and fill the arrays. -/
theorem run_readBack {t : Nat} (plain : (heap.table t).metatable = false) {lo hi : Nat}
    (below : bar ≤ stack.length) (key : Nat → Nat) (cell : Nat → DllM σ PUnit)
    (store : Nat → Host → Host)
    (stores : ∀ i, lo ≤ i → i < hi →
      StoresTop s (cell i) ((heap.table t).node (.number (.ofNat (key i)))) (store i)) :
    countUp lo hi (fun i => do
        fetchElement E (.table t) (key i)
        cell i
        popAbove bar) (s.withL ⟨.table t :: stack, heap⟩) =
      .ok ⟨⟩ (Dll.withL { s with host := s.host.stored store lo hi }
        ⟨.table t :: stack, heap⟩) := by
  let path (i : Nat) : Dll σ :=
    Dll.withL { s with host := s.host.stored store lo i } ⟨.table t :: stack, heap⟩
  have start : s.withL ⟨.table t :: stack, heap⟩ = path lo := by
    simp only [path, Host.stored_self]
  by_cases le : lo ≤ hi
  swap
  · rw [countUp_done (by omega), Host.stored_of_le store (by omega)]
    rfl
  rw [start]
  refine run_countUp path le fun i low high => ?_
  obtain ⟨v', stored⟩ := stores i low high (s.host.stored store lo i) (.table t :: stack) heap
  have next : path (i + 1) = Dll.withL { s with host := store i (s.host.stored store lo i) }
      ⟨.table t :: stack, heap⟩ := by
    simp only [path, Host.stored_succ store low]
  rw [next]
  refine ok_bind (run_fetchElement E plain (key i)) (ok_bind stored ?_)
  exact run_popAbove (by simpa using below)

/-- A table that can be read is stored whole, and popped. -/
theorem run_takeTable {t : Nat} (plain : (heap.table t).metatable = false) (lo : Nat)
    (hi : Dll σ → Nat)
    (below : bar ≤ stack.length - 1) (key : Nat → Nat) (cell : Nat → DllM σ PUnit)
    (store : Nat → Host → Host) (other : DllM σ PUnit)
    (stores : ∀ i, lo ≤ i → i < hi (s.withL ⟨.table t :: stack, heap⟩) →
      StoresTop s (cell i) ((heap.table t).node (.number (.ofNat (key i)))) (store i)) :
    takeTable bar lo hi (fun tbl i => do
        fetchElement E tbl (key i)
        cell i
        popAbove bar) other (s.withL ⟨.table t :: stack, heap⟩) =
      .ok ⟨⟩ (Dll.withL { s with
        host := s.host.stored store lo (hi (s.withL ⟨.table t :: stack, heap⟩)) }
          ⟨stack, heap⟩) := by
  refine ok_bind (run_onL (run_luaHasType .table)) (ok_ite_true (decide_eq_true rfl) ?_)
  refine ok_bind (run_onL run_valueAt_top) (ok_bind (run_get _) ?_)
  exact ok_bind (run_readBack E plain (by omega) key cell store stores) (run_popAbove below)

/-- Anything else is left where it is. -/
theorem takeTable_other {lo : Nat} {hi : Dll σ → Nat} {round : TValue → Nat → DllM σ PUnit}
    {other : DllM σ PUnit} {t : Dll σ} (noTable : v.type ≠ .table)
    (run : other (s.withL ⟨v :: stack, heap⟩) = .ok ⟨⟩ t) :
    takeTable bar lo hi round other (s.withL ⟨v :: stack, heap⟩) = .ok ⟨⟩ t :=
  ok_bind (run_onL (run_luaHasType .table))
    (ok_ite_false (fun h => noTable (of_decide_eq_true h)) run)

/-! ### The result of a step -/

/-- Only a plain table can be read back. -/
theorem fits_table {C : CLib} {outputs : Nat} {marked : Nat → Bool}
    (h : (replyOf heap v).Fits C outputs marked) :
    ∃ t, v = .table t ∧ (heap.table t).metatable = false ∧
      ∀ i, 1 ≤ i → i < outputs → Fits C marked (replyOf heap v).elem i := by
  cases v with
  | table t => exact ⟨t, rfl, by simpa using h.1, h.2⟩
  | _ => exact h.elim

/-- A reply that the start can store is a plain table, and its elements can be
stored one by one. -/
theorem fitsStart_table {C : CLib} {outputs : Nat} {marked : Nat → Bool}
    (h : (replyOf heap v).FitsStart C outputs marked) :
    ∃ t, v = .table t ∧ (heap.table t).metatable = false ∧
      ∀ i, 1 ≤ i → i < outputs → FitsStart C marked (replyOf heap v).elem i := by
  cases v with
  | table t => exact ⟨t, rfl, by simpa using h.1, h.2⟩
  | _ => exact h.elim

/-- So is a `gPUser` that can be read back, with a hundred numbers in it. -/
theorem fitsPUser_table {C : CLib} (h : (replyOf heap v).FitsPUser C) :
    ∃ t, v = .table t ∧ (heap.table t).metatable = false ∧
      ∀ i, i < 100 → ((replyOf heap v).elem (i + 1)).isnumber C := by
  cases v with
  | table t => exact ⟨t, rfl, by simpa using h.1, h.2⟩
  | _ => exact h.elim

theorem not_fits_of_other {C : CLib} (other : v.type ≠ .table) {outputs : Nat}
    {marked : Nat → Bool} : ¬(replyOf heap v).Fits C outputs marked := by
  cases v with
  | table t => exact absurd rfl other
  | _ => exact id

theorem not_fitsStart_of_other {C : CLib} (other : v.type ≠ .table) {outputs : Nat}
    {marked : Nat → Bool} : ¬(replyOf heap v).FitsStart C outputs marked := by
  cases v with
  | table t => exact absurd rfl other
  | _ => exact id

/-- A reply is noted with the counts and markers of the moment it is read at. -/
theorem run_emitReply (source : Source) :
    emitReply source (s.withL ⟨v :: rest, heap⟩) =
      .ok ⟨⟩ ((s.replied source (replyOf heap v)).withL ⟨v :: rest, heap⟩) :=
  rfl

/-- A result that fits is stored whole, and the stack is as it was. -/
theorem run_readResult (fit : s.CountsFit) (below : bar ≤ stack.length - 1)
    (fits : (replyOf heap v).Fits E.toCLib s.gNumOutputs.toNat s.outputMarks) :
    readResult E bar (s.withL ⟨v :: stack, heap⟩) =
      .ok ⟨⟩ (Dll.withL { s.replied (.result .gCalculate) (replyOf heap v) with
        host := s.host.stored (Host.storeResult E.toCLib s.outputMarks (replyOf heap v).elem) 1
          s.gNumOutputs.toNat } ⟨stack, heap⟩) := by
  obtain ⟨t, rfl, plain, fits⟩ := fits_table fits
  refine ok_bind (run_emitReply _) (run_takeTable E plain _ _ below id
    (storeOutput E bar (storeString E bar)) _ (setError 1) fun i low high => ?_)
  exact storeOutput_stores E (s := s.replied (.result .gCalculate) (replyOf heap (.table t)))
    (Nat.lt_of_lt_of_le high fit.outputs_le) (fits i low high)

/-- The result of the start, with the same effect on the stack. -/
theorem run_readStartResult (fit : s.CountsFit) (below : bar ≤ stack.length - 1)
    (fits : (replyOf heap v).FitsStart E.toCLib s.gNumOutputs.toNat s.outputMarks) :
    readStartResult E bar (s.withL ⟨v :: stack, heap⟩) =
      .ok ⟨⟩ (Dll.withL { s.replied (.result .gSimStart) (replyOf heap v) with
        host := s.host.stored (Host.storeStartResult E.toCLib s.outputMarks (replyOf heap v).elem)
          1 s.gNumOutputs.toNat } ⟨stack, heap⟩) := by
  obtain ⟨t, rfl, plain, fits⟩ := fitsStart_table fits
  refine ok_bind (run_emitReply _) (run_takeTable E plain _ _ below id
    (storeOutput E bar fun _ => pure ()) _ (setError 1) fun i low high => ?_)
  exact storeStartOutput_stores E (s := s.replied (.result .gSimStart) (replyOf heap (.table t)))
    (Nat.lt_of_lt_of_le high fit.outputs_le) (fits i low high)

/-! ### The parameters -/

theorem readPUser_stores {elem : Nat → TValue} {i : Nat}
    (number : (elem (i + 1)).isnumber E.toCLib = true) :
    StoresTop s (storeNumber E bar (setPUser i) (pure ())) (elem (i + 1))
      (Host.storePUser E.toCLib elem i) :=
  storeNumber_stores E number fun _ => rfl

end ProfiLua
