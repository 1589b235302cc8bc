import Mathlib.Data.Nat.Find
import ProfiLua.Dll.Answers
import ProfiLua.Dll.Markers

/-!
Reading back tables whose elements have any type.

A bad element is stored as nothing, but its round pops the table with it, and
the rounds after it read from whatever lies below. So only the last channel may
have a bad element (`elements_stored`).
-/

namespace ProfiLua

open Program

variable {σ : Type} (E : Env σ)

/-! ### Rounds -/

/-- The elements of a table at the integer keys. -/
def Heap.array (heap : Heap σ) (r : Nat) (j : Nat) : TValue :=
  (heap.table r).node (.number (.ofNat j))

/-- In the globals of `s`, `x` stores something in the host's arrays and pops the
value on top of the stack, and the error flag is `flag` afterwards. -/
def DropsTop (s : Dll σ) (x : DllM σ PUnit) (f : Host → Host) (flag : UChar) (v : TValue) : Prop :=
  ∀ h rest heap, ∃ b, x (Dll.withL { s with host := h } ⟨v :: rest, heap⟩) =
    .ok ⟨⟩ (Dll.withL { s with host := f h, gERROR := flag, balanced := b } ⟨rest, heap⟩)

/-- One round of a loop, for the element at `key i`. -/
def readRound (bar : Int) (r : Nat) (key : Nat → Nat) (cell : Nat → DllM σ PUnit) (i : Nat) :
    DllM σ PUnit := do
  fetchElement E (.table r) (key i)
  cell i
  popAbove bar

/-- Only the last channel may have a bad element, and then something must lie
below the table. -/
def OnlyLastBad (usable : Nat → Prop) (lo hi : Nat) (stack : List TValue) : Prop :=
  (∀ i, lo ≤ i → i + 1 < hi → usable i) ∧ ∀ i, lo ≤ i → i + 1 = hi → usable i ∨ stack ≠ []

/-- What lies below the table cannot be indexed. -/
def CannotIndex (heap : Heap σ) (stack : List TValue) : Prop :=
  ∀ v ∈ stack.head?, v.type ≠ .table ∧ heap.metatables v.type = false

/-- How the rounds treat their elements: a usable one is stored and stays, any
other is popped. -/
structure Treats (s : Dll σ) (elem : Nat → TValue) (lo hi : Nat) (cell : Nat → DllM σ PUnit)
    (store : Nat → Host → Host) (usable : Nat → Prop) (flag : UChar) : Prop where
  good : ∀ i, lo ≤ i → i < hi → usable i → StoresTop s (cell i) (elem i) (store i)
  bad : ∀ i, lo ≤ i → i < hi → ¬usable i → DropsTop s (cell i) (store i) flag (elem i)

section Rounds

variable {s : Dll σ} {stack : List TValue} {heap : Heap σ} {bar : Int} {r lo hi : Nat}
  {key : Nat → Nat} {cell : Nat → DllM σ PUnit} {store : Nat → Host → Host}
  {usable : Nat → Prop} {flag : UChar}

/-- A pop never fails with something on the stack; whether it went below the bar
is only noted, in `balanced`. -/
theorem popAbove_pops (bar : Int) (s : Dll σ) (v : TValue) (stack : List TValue) (heap : Heap σ) :
    ∃ b, popAbove bar (s.withL ⟨v :: stack, heap⟩) =
    .ok ⟨⟩ (Dll.withL { s with balanced := b } ⟨stack, heap⟩) :=
  ⟨_, ok_bind (run_onL run_luaPop_one) (run_check _ _)⟩

theorem popAbove_empty (s : Dll σ) : ∃ e t, popAbove bar (s.withL ⟨[], heap⟩) = .error e t := by
  have underflow : luaPop 1 (⟨[], heap⟩ : LuaState σ) = .error .stackUnderflow ⟨[], heap⟩ := by
    unfold luaPop
    rw [run_bind_ok (run_get _), if_neg (by simp)]
    rfl
  refine ⟨.lua .stackUnderflow, s.withL ⟨[], heap⟩, ?_⟩
  unfold popAbove
  rw [run_bind, onL_error rfl underflow]
  rfl

variable (stack bar) in
/-- A round with a bad element pops the table too: the branch for it pops the
element, and the pop after the `if` then takes the table. -/
theorem run_readRound_bad (plain : (heap.table r).metatable = false) {i : Nat}
    (drops : DropsTop s (cell i) (store i) flag (heap.array r (key i))) (h : Host) :
    ∃ b, readRound E bar r key cell i (Dll.withL { s with host := h } ⟨.table r :: stack, heap⟩) =
      .ok ⟨⟩ (Dll.withL { s with host := store i h, gERROR := flag, balanced := b }
        ⟨stack, heap⟩) := by
  obtain ⟨b, dropped⟩ := drops h (.table r :: stack) heap
  obtain ⟨b', popped⟩ := popAbove_pops bar
    { s with host := store i h, gERROR := flag, balanced := b } (.table r) stack heap
  exact ⟨b', ok_bind (run_fetchElement E (s := { s with host := h }) plain _)
    (ok_bind dropped popped)⟩

/-- Reading an entry of what cannot be indexed: nothing is there, or a value
that is no table and has no metatable. Both end the process, since nothing
protects the lookup. -/
theorem luaGettable_stuck (cannot : CannotIndex heap stack) (key : TValue) :
    ∃ e l, luaGettable E (-2) ⟨key :: stack, heap⟩ = .error e l := by
  have below := index2adr_below (⟨key :: stack, heap⟩ : LuaState σ) (k := 1) (by decide)
  cases stack with
  | nil =>
      refine ⟨.stackUnderflow, ⟨[key], heap⟩, ?_⟩
      have none : valueAt (-2) (⟨[key], heap⟩ : LuaState σ) =
          .error .stackUnderflow ⟨[key], heap⟩ := by
        unfold valueAt
        rw [run_bind_ok (run_get _), show (-2 : Int) = -((1 : Nat) + 1 : Nat) from rfl, below]
        rfl
      unfold luaGettable
      rw [run_bind, none]
  | cons v rest =>
      obtain ⟨noTable, noMetatable⟩ := cannot v rfl
      refine ⟨.typeError, ⟨key :: v :: rest, heap⟩, ?_⟩
      have get : luaVGettable E v key ⟨key :: v :: rest, heap⟩ =
          .error .typeError ⟨key :: v :: rest, heap⟩ := by
        unfold luaVGettable
        rw [run_bind_ok (run_get _)]
        cases v with
        | table t => exact absurd rfl noTable
        | _ =>
            simp only [noMetatable, Bool.false_eq_true, if_false]
            rfl
      unfold luaGettable
      rw [run_bind_ok (run_valueAt index2adr_second), run_bind_ok run_valueAt_top, run_bind, get]

variable (bar r key cell) in
/-- A value that cannot be indexed ends the loop, and the process: the round
begins by looking its element up. -/
theorem readRound_stuck (cannot : CannotIndex heap stack) (s : Dll σ) (i : Nat) :
    ∃ e t, readRound E bar r key cell i (s.withL ⟨stack, heap⟩) = .error e t := by
  obtain ⟨e, l, stuck⟩ := luaGettable_stuck E cannot (.number (.ofNat (key i)))
  have fetch : ∃ t, fetchElement E (.table r) (key i) (s.withL ⟨stack, heap⟩) =
      .error (.lua e) t :=
    ⟨_, (run_bind_ok (run_onL (run_push _ _)) _).trans
      ((run_bind_ok (run_check _ _) _).trans (onL_error rfl stuck))⟩
  obtain ⟨t, fetch⟩ := fetch
  refine ⟨.lua e, t, ?_⟩
  unfold readRound
  rw [run_bind, fetch]

/-! ### The loop -/

variable (treats : Treats s (fun i => heap.array r (key i)) lo hi cell store usable flag)

include treats

/-- Before the first bad element the rounds store and keep the stack, with the
table still on top of it. -/
theorem run_readRounds (plain : (heap.table r).metatable = false) (below : bar ≤ stack.length)
    {k : Nat} (high : k ≤ hi) (fits : ∀ i, lo ≤ i → i < k → usable i) :
    countUp lo k (readRound E bar r key cell) (s.withL ⟨.table r :: stack, heap⟩) =
      .ok ⟨⟩ (Dll.withL { s with host := s.host.stored store lo k } ⟨.table r :: stack, heap⟩) :=
  run_readBack E plain below key cell store fun i low lt =>
    treats.good i low (by omega) (fits i low lt)

/-- The first bad element takes the table with it; its own channel is stored as
0 or as the empty string all the same. -/
theorem run_readRounds_bad (plain : (heap.table r).metatable = false) (below : bar ≤ stack.length)
    {k : Nat} (low : lo ≤ k) (high : k < hi) (fits : ∀ i, lo ≤ i → i < k → usable i)
    (bad : ¬usable k) :
    ∃ b, countUp lo (k + 1) (readRound E bar r key cell) (s.withL ⟨.table r :: stack, heap⟩) =
      .ok ⟨⟩ (Dll.withL { s with
        host := s.host.stored store lo (k + 1), gERROR := flag, balanced := b } ⟨stack, heap⟩) := by
  obtain ⟨b, last⟩ := run_readRound_bad E stack bar plain
    (treats.bad k low high bad) (s.host.stored store lo k)
  refine ⟨b, ?_⟩
  rw [countUp_split low (Nat.le_succ k), Host.stored_succ store low]
  refine ok_bind (run_readRounds E treats plain below (Nat.le_of_lt high) fits) ?_
  rw [countUp_next (Nat.lt_succ_self k), countUp_done (Nat.le_refl _)]
  exact ok_bind last rfl

/-- With at most the last element bad the loop ends, everything stored. The pop
after the loop then takes the table, or what lies below it if the last round has
taken the table already. -/
theorem readRounds_store (plain : (heap.table r).metatable = false)
    (below : bar ≤ stack.length - 1) (only : OnlyLastBad usable lo hi stack) :
    ∃ rest b e, (countUp lo hi (readRound E bar r key cell) >>= fun _ => popAbove bar)
        (s.withL ⟨.table r :: stack, heap⟩) =
      .ok ⟨⟩ (Dll.withL { s with
        host := s.host.stored store lo hi, gERROR := e, balanced := b } ⟨rest, heap⟩) ∧
      ((∀ i, lo ≤ i → i < hi → usable i) ∧ e = s.gERROR ∨
        (∃ i, lo ≤ i ∧ i < hi ∧ ¬usable i) ∧ e = flag) := by
  have below' : bar ≤ stack.length := by omega
  by_cases all : ∀ i, lo ≤ i → i < hi → usable i
  · obtain ⟨b, popped⟩ := popAbove_pops bar { s with host := s.host.stored store lo hi } (.table r)
      stack heap
    refine ⟨stack, b, s.gERROR, ?_, .inl ⟨all, rfl⟩⟩
    exact ok_bind (run_readRounds E treats plain below' (Nat.le_refl hi) all) popped
  · push Not at all
    obtain ⟨k, low, high, bad⟩ := all
    obtain rfl : k + 1 = hi := by
      by_contra ne
      exact bad (only.1 k low (by omega))
    obtain ⟨w, rest, rfl⟩ := List.exists_cons_of_ne_nil ((only.2 k low rfl).resolve_left bad)
    obtain ⟨b, stored⟩ := run_readRounds_bad E treats plain below' low high
      (fun i low lt => only.1 i low (by omega)) bad
    obtain ⟨b', popped⟩ := popAbove_pops bar
      { s with host := s.host.stored store lo (k + 1), gERROR := flag, balanced := b } w rest heap
    exact ⟨rest, b', flag, ok_bind stored popped, .inr ⟨⟨k, low, high, bad⟩, rfl⟩⟩

/-- With an earlier element bad the loop reads from below the table, where
nothing can be indexed; with a bad last one and nothing below, the pop after the
loop fails. -/
theorem readRounds_stuck (plain : (heap.table r).metatable = false)
    (below : bar ≤ stack.length) (cannot : CannotIndex heap stack)
    (more : ¬OnlyLastBad usable lo hi stack) :
    ∃ e t, (countUp lo hi (readRound E bar r key cell) >>= fun _ => popAbove bar)
      (s.withL ⟨.table r :: stack, heap⟩) = .error e t := by
  classical
  have some : ∃ i, lo ≤ i ∧ i < hi ∧ ¬usable i := by
    by_contra none
    push Not at none
    exact more ⟨fun i low lt => none i low (by omega),
      fun i low last => .inl (none i low (by omega))⟩
  obtain ⟨low, high, bad⟩ := Nat.find_spec some
  have first : ∀ i, lo ≤ i → i < Nat.find some → usable i := by
    intro i low lt
    by_contra not
    exact Nat.find_min some lt ⟨low, by omega, not⟩
  obtain ⟨b, stored⟩ := run_readRounds_bad E treats plain below low high first bad
  generalize Nat.find some = k at low high bad first stored
  rw [countUp_split (show lo ≤ k + 1 by omega) high, bind_assoc, run_bind_ok stored]
  by_cases last : k + 1 = hi
  · -- nothing is left to pop
    have empty : stack = [] := by
      by_contra nonempty
      refine more ⟨fun i low lt => first i low ?_, fun i _ _ => .inr nonempty⟩
      omega
    subst empty
    rw [last, countUp_done (Nat.le_refl hi), pure_bind]
    exact popAbove_empty _
  · obtain ⟨e, t, stuck⟩ := readRound_stuck E bar r key cell cannot
      { s with host := s.host.stored store lo (k + 1), gERROR := flag, balanced := b } (k + 1)
    refine ⟨e, t, ?_⟩
    rw [countUp_next (by omega), bind_assoc, run_bind, stuck]

end Rounds

/-! ### The cells -/

section Cells

variable {s : Dll σ} {bar : Int} {v : TValue} {i : Nat}

/-- What is no number is stored as 0 and popped, and the flag is set. The pop in
this branch is the one too many. -/
theorem storeNumber_drops {cell : LuaNumber → DllM σ PUnit} {bad : DllM σ PUnit}
    {f : Host → Host} {flag : UChar} (number : ¬v.isnumber E.toCLib = true)
    (hc : ∀ t : Dll σ, cell (v.num E.toCLib) t = .ok ⟨⟩ { t with host := f t.host })
    (hb : ∀ t : Dll σ, t.gERROR = s.gERROR → bad t = .ok ⟨⟩ { t with gERROR := flag }) :
    DropsTop s (storeNumber E bar cell bad) f flag v := by
  intro h rest heap
  have zero : v.num E.toCLib = .fin 0 := by
    unfold TValue.num
    rw [Option.not_isSome_iff_eq_none.mp number]
    rfl
  rw [zero] at hc
  obtain ⟨b, popped⟩ := popAbove_pops bar { s with host := f h } v rest heap
  refine ⟨b, ok_bind (run_onL (run_luaIsnumber E)) (ok_ite_false number ?_)⟩
  exact ok_bind (hc _) (ok_bind popped (hb _ rfl))

/-- What is no string is stored as the empty one and popped. -/
theorem storeString_drops (text : ¬v.isstring = true) :
    DropsTop s (storeString E bar i)
      (fun h => { h with
        pString := Function.update h.pString i (cstr (v.text E.toCLib)) }) 1 v := by
  intro h rest heap
  have empty : cstr (v.text E.toCLib) = [] := by
    have none : v.tostring E.toCLib = none :=
      Option.not_isSome_iff_eq_none.mp (by rw [TValue.tostring_isSome]; exact text)
    unfold TValue.text
    rw [none]
    rfl
  obtain ⟨b, popped⟩ := popAbove_pops bar
    { s with host := { h with pString := Function.update h.pString i [] } } v rest heap
  refine ⟨b, ok_bind (run_onL run_luaIsstring) (ok_ite_false text ?_)⟩
  rw [empty]
  exact ok_bind (run_setPString i [] _) (ok_bind popped (run_setError 1 _))

section Treat

variable (bar)

/-- The cells of `CCalculateEx`: a string pin takes a string, every other output
a number, and an element of another type is dropped with the flag set. -/
theorem storeOutput_treats (s : Dll σ) (elem : Nat → TValue) {hi : Nat} (le : hi ≤ markerSize) :
    Treats s elem 1 hi (storeOutput E bar (storeString E bar))
      (Host.storeResult E.toCLib s.outputMarks elem) (Fits E.toCLib s.outputMarks elem) 1 where
  good := fun i _ lt fits => storeOutput_stores E (Nat.lt_of_lt_of_le lt le) fits
  bad := by
    intro i _ lt misfit h rest heap
    have inside : i < markerSize := Nat.lt_of_lt_of_le lt le
    -- the branch for a bad element is the same slip in both
    by_cases mark : s.outputMarks i = true
    · simp only [Fits, mark, if_true] at misfit
      have drops : DropsTop s (storeString E bar i) _ 1 (elem i) := storeString_drops E misfit
      obtain ⟨b, dropped⟩ := drops h rest heap
      refine ⟨b, ok_bind (run_outMarked inside _) (ok_ite_true mark ?_)⟩
      simpa only [Host.storeResult, mark, if_true] using dropped
    · simp only [Fits, mark, Bool.false_eq_true, if_false] at misfit
      have drops : DropsTop s (storeNumber E bar (setPOutput i) (setError 1))
          (fun h => { h with pOutput := Function.update h.pOutput i ((elem i).num E.toCLib) }) 1
          (elem i) :=
        storeNumber_drops E misfit (fun _ => rfl) fun t _ => run_setError 1 t
      obtain ⟨b, dropped⟩ := drops h rest heap
      refine ⟨b, ok_bind (run_outMarked inside _) (ok_ite_false mark ?_)⟩
      simpa only [Host.storeResult, mark, Bool.false_eq_true, if_false] using dropped

/-- The cells of `CSimStartFlaw`, which stores numbers only: for a string pin
nothing is read, so nothing can be bad. -/
theorem storeStartOutput_treats (s : Dll σ) (elem : Nat → TValue) {hi : Nat}
    (le : hi ≤ markerSize) :
    Treats s elem 1 hi (storeOutput E bar (fun _ => pure ()))
      (Host.storeStartResult E.toCLib s.outputMarks elem)
      (FitsStart E.toCLib s.outputMarks elem) 1 where
  good := fun i _ lt fits => storeStartOutput_stores E (Nat.lt_of_lt_of_le lt le) fits
  bad := by
    intro i _ lt misfit h rest heap
    have inside : i < markerSize := Nat.lt_of_lt_of_le lt le
    simp only [FitsStart, not_or] at misfit
    obtain ⟨unmarked, number⟩ := misfit
    have drops : DropsTop s (storeNumber E bar (setPOutput i) (setError 1))
        (fun h => { h with pOutput := Function.update h.pOutput i ((elem i).num E.toCLib) }) 1
        (elem i) :=
      storeNumber_drops E number (fun _ => rfl) fun t _ => run_setError 1 t
    obtain ⟨b, dropped⟩ := drops h rest heap
    refine ⟨b, ok_bind (run_outMarked inside _) (ok_ite_false unmarked ?_)⟩
    simpa only [Host.storeStartResult, unmarked, Bool.false_eq_true, if_false] using dropped

/-- The cells of `CSimStop`, which leaves the error flag alone. -/
theorem storePUser_treats (s : Dll σ) (elem : Nat → TValue) :
    Treats s (fun i => elem (i + 1)) 0 100
      (fun i => storeNumber E bar (setPUser i) (pure ())) (Host.storePUser E.toCLib elem)
      (fun i => (elem (i + 1)).isnumber E.toCLib = true) s.gERROR where
  good := fun _ _ _ number => readPUser_stores E number
  bad := fun i _ _ number => storeNumber_drops E number (fun _ => rfl) fun t flag => by
    rw [← flag]
    rfl

end Treat

end Cells

/-! ### What the arrays hold -/

/-- The script's answer is a plain table, on top of the stack; every output has a
marker. -/
structure TableOnTop (u : Dll σ) (r : Nat) (stack : List TValue) (heap : Heap σ) : Prop where
  live : u.L = some ⟨.table r :: stack, heap⟩
  plain : (heap.table r).metatable = false
  outputs_le : u.gNumOutputs.toNat ≤ markerSize

/-- After a step every output holds its element, or nothing if that is unusable,
and the error flag says whether one was. -/
structure StepStored (C : CLib) (u : Dll σ) (elem : Nat → TValue) (w : Dll σ) : Prop where
  pOutput : ∀ j, 1 ≤ j → j < u.gNumOutputs.toNat → u.outputMarks j = false →
    w.host.pOutput j = (elem j).num C
  pString : ∀ j, 1 ≤ j → j < u.gNumOutputs.toNat → u.outputMarks j = true →
    w.host.pString j = cstr ((elem j).text C)
  gERROR : w.gERROR = 1 ↔ ∃ j, 1 ≤ j ∧ j < u.gNumOutputs.toNat ∧ ¬Fits C u.outputMarks elem j

/-- After a start every output that is no string pin holds its element. -/
def StartStored (C : CLib) (u : Dll σ) (elem : Nat → TValue) (w : Dll σ) : Prop :=
  ∀ j, 1 ≤ j → j < u.gNumOutputs.toNat → u.outputMarks j = false →
    w.host.pOutput j = (elem j).num C

/-- After a stop `PUser` holds the elements of `gPUser`. -/
def StopStored (C : CLib) (elem : Nat → TValue) (w : Dll σ) : Prop :=
  ∀ i, i < 100 → w.host.pUser i = (elem (i + 1)).num C

/-- A bad element of the last channel does no harm; an earlier one does, unless
what lies below the table can be indexed. -/
def HarmsOnly (stored : Prop) (usable : Nat → Prop) (lo hi : Nat) (stack : List TValue)
    (heap : Heap σ) : Prop :=
  (OnlyLastBad usable lo hi stack → stored) ∧
    (CannotIndex heap stack → stored → OnlyLastBad usable lo hi stack)

section Stored

variable {s u : Dll σ} {bar : Int} {r : Nat} {stack : List TValue} {heap : Heap σ}

/-- Taking a table is its rounds and a pop. -/
theorem run_takeTable_rounds (lo : Nat) (hi : Dll σ → Nat) (key : Nat → Nat)
    (cell : Nat → DllM σ PUnit) (other : DllM σ PUnit) :
    takeTable bar lo hi (fun tbl i => do
        fetchElement E tbl (key i)
        cell i
        popAbove bar) other (s.withL ⟨.table r :: stack, heap⟩) =
      (countUp lo (hi (s.withL ⟨.table r :: stack, heap⟩)) (readRound E bar r key cell) >>= fun _ =>
        popAbove bar) (s.withL ⟨.table r :: stack, heap⟩) := by
  refine (run_bind_ok (run_onL (run_luaHasType .table)) _).trans ?_
  refine (congrFun (if_pos (decide_eq_true rfl)) _).trans ?_
  exact (run_bind_ok (run_onL run_valueAt_top) _).trans (run_bind_ok (run_get _) _)

/-- A call that takes a table and then does what cannot go wrong. The two
directions are the two lemmas about the loop: it stores everything with at most
the last element bad, and it is stuck otherwise. -/
theorem harmsOnly_of_rounds {v : Dll σ} {lo hi : Nat} {key : Nat → Nat} {cell : Nat → DllM σ PUnit}
    {store : Nat → Host → Host} {usable : Nat → Prop} {flag : UChar}
    {result : EStateM.Result Stop (Dll σ) PUnit} {finish : DllM σ PUnit} {P : Dll σ → Prop}
    (treats : Treats v (fun i => heap.array r (key i)) lo hi cell store usable flag)
    (plain : (heap.table r).metatable = false) (height : bar = (stack.length : Int) - 1)
    (whole : result = ((countUp lo hi (readRound E bar r key cell) >>= fun _ => popAbove bar) >>=
      fun _ => finish) (v.withL ⟨.table r :: stack, heap⟩))
    (finishes : ∀ l b e, ((∀ i, lo ≤ i → i < hi → usable i) ∧ e = v.gERROR ∨
        (∃ i, lo ≤ i ∧ i < hi ∧ ¬usable i) ∧ e = flag) →
      ∃ w, finish (Dll.withL { v with
        host := v.host.stored store lo hi, gERROR := e, balanced := b } l) = .ok ⟨⟩ w ∧ P w) :
    HarmsOnly (∃ w, result = .ok ⟨⟩ w ∧ P w) usable lo hi stack heap := by
  constructor
  · intro only
    obtain ⟨rest, b, e, stored, flagged⟩ :=
      readRounds_store E treats plain (Int.le_of_eq height) only
    obtain ⟨w, finished, holds⟩ := finishes ⟨rest, heap⟩ b e flagged
    exact ⟨w, whole.trans (ok_bind stored finished), holds⟩
  · rintro cannot ⟨w, returned, _⟩
    by_contra more
    obtain ⟨e, t, stuck⟩ := readRounds_stuck E treats plain
      (Int.le_of_eq height |>.trans (by omega)) cannot more
    rw [whole, run_bind, stuck] at returned
    cases returned

/-- Taking the answer is noting it and going through its rounds, as many as
there are channels. -/
theorem run_take (top : TableOnTop u r stack heap) (source : Source) (lo : Nat) (hi : Dll σ → Nat)
    (key : Nat → Nat) (cell : Nat → DllM σ PUnit) (other : DllM σ PUnit) :
    (emitReply source >>= fun _ => takeTable bar lo hi (fun tbl i => do
        fetchElement E tbl (key i)
        cell i
        popAbove bar) other) u =
      (countUp lo (hi (u.replied source (replyOf heap (.table r)))) (readRound E bar r key cell) >>=
        fun _ => popAbove bar)
        ((u.replied source (replyOf heap (.table r))).withL ⟨.table r :: stack, heap⟩) := by
  have noted : emitReply source (u.withL ⟨.table r :: stack, heap⟩) = .ok ⟨⟩
      ((u.replied source (replyOf heap (.table r))).withL ⟨.table r :: stack, heap⟩) :=
    run_emitReply source
  rw [Dll.withL_self top.live] at noted
  refine (run_bind_ok noted _).trans ((run_takeTable_rounds E lo hi key cell other).trans ?_)
  have same : (u.replied source (replyOf heap (.table r))).withL ⟨.table r :: stack, heap⟩ =
      u.replied source (replyOf heap (.table r)) := Dll.withL_self top.live
  rw [same]

/-- The bar lies just below the table. -/
theorem TableOnTop.height (top : TableOnTop u r stack heap)
    (onTop : (Reach.answered bar).OnTop u) : bar = (stack.length : Int) - 1 := by
  obtain ⟨v, stack', heap', live, height⟩ := onTop bar rfl
  have same := live.symm.trans top.live
  simp only [Option.some.injEq, LuaState.mk.injEq, List.cons.injEq] at same
  rw [← same.1.2]
  exact height

/-- The loop of `CCalculateEx`: up to the answer it is `askStep`, and then come
the rounds. The error flag was 0 when the script was called, so afterwards it
tells of the elements alone. -/
theorem step_harmsOnly
    (asked : (startOverride E >>= fun _ => askStep E) s = .ok (.answered bar) u)
    (top : TableOnTop u r stack heap) :
    HarmsOnly (∃ w, cCalculateEx E s = .ok ⟨⟩ w ∧ StepStored E.toCLib u (heap.array r) w)
      (Fits E.toCLib u.outputMarks (heap.array r)) 1 u.gNumOutputs.toNat stack heap := by
  obtain ⟨_, _, _, askedStep⟩ := bind_ok_iff.mp asked
  obtain ⟨onTop, fine⟩ := (askStep_onTop E _).ok askedStep
  have zero : u.gERROR = 0 := fine ⟨bar, rfl⟩
  let v : Dll σ := u.replied (.result .gCalculate) (replyOf heap (.table r))
  have whole : cCalculateEx E s = (readResult E bar >>= fun _ => leave bar) u := by
    unfold cCalculateEx
    rw [runStep_eq, ← bind_assoc, run_bind_ok asked]
    rfl
  refine harmsOnly_of_rounds E (storeOutput_treats E bar v (heap.array r) top.outputs_le)
    top.plain (top.height onTop) (whole.trans (run_bind_congr (run_take E top _ 1 _ id _ _) _))
    fun l b e flagged => ⟨_, run_check _ _, ?_, ?_, ?_⟩
  · intro j pos lt unmarked
    exact (storedResult_pOutput _ _ _ _ _ j).trans (if_pos ⟨pos, lt, unmarked⟩)
  · intro j pos lt marked
    exact (storedResult_pString _ _ _ _ _ j).trans (if_pos ⟨pos, lt, marked⟩)
  · rcases flagged with ⟨all, rfl⟩ | ⟨bad, rfl⟩
    · constructor
      · intro one
        exact absurd (zero.symm.trans one) (by decide)
      · rintro ⟨j, pos, lt, bad⟩
        exact absurd (all j pos lt) bad
    · exact ⟨fun _ => bad, fun _ => rfl⟩

/-- The loop of `CSimStartFlaw`, whose error flag is cleared after it in any
case, so that a bad element is not even reported. -/
theorem start_harmsOnly (asked : askStart E s = .ok (.answered bar) u)
    (top : TableOnTop u r stack heap) :
    HarmsOnly (∃ w, cSimStartFlaw E s = .ok ⟨⟩ w ∧ StartStored E.toCLib u (heap.array r) w)
      (FitsStart E.toCLib u.outputMarks (heap.array r)) 1 u.gNumOutputs.toNat stack heap := by
  have onTop := (askStart_onTop E s).ok asked
  let v : Dll σ := u.replied (.result .gSimStart) (replyOf heap (.table r))
  have whole : cSimStartFlaw E s = (readStartResult E bar >>= fun _ => do
      setPOutput 0 plOk
      setError 0
      leave bar) u := by
    rw [cSimStartFlaw_eq, run_bind_ok asked]
    rfl
  refine harmsOnly_of_rounds E
    (storeStartOutput_treats E bar v (heap.array r) top.outputs_le) top.plain
    (top.height onTop) (whole.trans (run_bind_congr (run_take E top _ 1 _ id _ _) _))
    fun l b e flagged => ⟨_, ok_bind (run_setPOutput 0 plOk _) (ok_bind (run_setError 0 _)
      (run_check _ _)), fun j pos lt unmarked => ?_⟩
  refine (Function.update_of_ne (by omega) _ _).trans ?_
  exact (storedStart_pOutput _ _ _ _ _ j).trans (if_pos ⟨pos, lt, unmarked⟩)

/-- The loop of `CSimStop`, which reads a hundred elements and flags no error.
What comes after it, closing the script and the console, does not depend on the
stack. -/
theorem stop_harmsOnly (asked : askPUser E s = .ok (.answered bar) u)
    (top : TableOnTop u r stack heap) :
    HarmsOnly (∃ w, cSimStop E s = .ok ⟨⟩ w ∧ StopStored E.toCLib (heap.array r) w)
      (fun i => (heap.array r (i + 1)).isnumber E.toCLib = true) 0 100 stack heap := by
  have onTop := (askPUser_onTop E s).ok asked
  let v : Dll σ := u.replied .gPUser (replyOf heap (.table r))
  have whole : cSimStop E s = (takePUser E (.answered bar) >>= fun _ => do
      closeLuaScript
      consoleStop) u := by
    rw [cSimStop_eq, run_bind_ok asked]
    rfl
  refine harmsOnly_of_rounds E (storePUser_treats E bar v (heap.array r)) top.plain
    (top.height onTop) (whole.trans (run_bind_congr (run_take E top _ 0 _ (· + 1) _ _) _))
    fun l b e flagged => ⟨_, ok_bind (run_closeLuaScript rfl) (run_modify _ _), ?_⟩
  intro i lt
  have console : ∀ t : Dll σ, (if t.gConsole = 1 then
      { debugConsoleOff t with gConsole := 0, gConsoleTop := 0 } else t).host = t.host := by
    intro t
    split <;> rfl
  rw [console]
  exact (storedPUser_pUser _ _ _ _ i).trans (if_pos lt)

end Stored

/-- In all three loops a bad element harms only its own channel when it is that
of the last channel, and harms the call when it is an earlier one: the loop then
goes on with what lies below the table. -/
theorem elements_stored :
    (∀ s u bar r stack heap,
      (startOverride E >>= fun _ => askStep E) s = .ok (.answered bar) u →
      TableOnTop u r stack heap →
      HarmsOnly (∃ w, cCalculateEx E s = .ok ⟨⟩ w ∧ StepStored E.toCLib u (heap.array r) w)
        (Fits E.toCLib u.outputMarks (heap.array r)) 1 u.gNumOutputs.toNat stack heap) ∧
    (∀ s u bar r stack heap, askStart E s = .ok (.answered bar) u → TableOnTop u r stack heap →
      HarmsOnly (∃ w, cSimStartFlaw E s = .ok ⟨⟩ w ∧ StartStored E.toCLib u (heap.array r) w)
        (FitsStart E.toCLib u.outputMarks (heap.array r)) 1 u.gNumOutputs.toNat stack heap) ∧
    ∀ s u bar r stack heap, askPUser E s = .ok (.answered bar) u → TableOnTop u r stack heap →
      HarmsOnly (∃ w, cSimStop E s = .ok ⟨⟩ w ∧ StopStored E.toCLib (heap.array r) w)
        (fun i => (heap.array r (i + 1)).isnumber E.toCLib = true) 0 100 stack heap := by
  refine ⟨?_, ?_, ?_⟩
  · intro s u bar r stack heap asked top
    exact step_harmsOnly E asked top
  · intro s u bar r stack heap asked top
    exact start_harmsOnly E asked top
  · intro s u bar r stack heap asked top
    exact stop_harmsOnly E asked top

/-! ### Samples -/

/-- Two inputs and two outputs, and a start that is pending. -/
def twoOutputs : Dll Unit :=
  { Dll.init sampleHost with gNumInputs := 3, gNumOutputs := 3, gCSimStartOverride := 1 }

/-- The same with the script open and no start pending. -/
def openedWith (E : Env Unit) : Dll Unit :=
  match E.luaOpen 0 with
  | some heap => { twoOutputs with gCSimStartOverride := 0 }.withL ⟨[.nil], scriptHeap E 0 heap⟩
  | none => twoOutputs

/-- A plain table lies on top of the stack. -/
def Dll.HoldsTable (u : Dll σ) (r : Nat) : Prop :=
  u.L.map (fun l => (l.stack.head?, (l.heap.table r).metatable)) = some (some (.table r), false) ∧
    u.gNumOutputs.toNat ≤ markerSize

instance (u : Dll σ) (r : Nat) : Decidable (u.HoldsTable r) :=
  inferInstanceAs (Decidable (_ ∧ _))

/-- The stack and the heap that go with it. -/
theorem Dll.HoldsTable.onTop {u : Dll σ} {r : Nat} (h : u.HoldsTable r) :
    ∃ stack heap, TableOnTop u r stack heap := by
  obtain ⟨top, outputs⟩ := h
  obtain ⟨⟨stack, heap⟩, live, shape⟩ := Option.map_eq_some_iff.mp top
  simp only [Prod.mk.injEq] at shape
  obtain ⟨rest, rfl⟩ := List.head?_eq_some_iff.mp shape.1
  exact ⟨rest, heap, live, shape.2, outputs⟩

/-- Of the elements of the table the last one is bad and no other, and something lies
below it. -/
def Dll.LastBad (u : Dll σ) (r lo hi : Nat) (usable : (Nat → TValue) → Nat → Prop) : Prop :=
  ∀ l ∈ u.L, 1 < l.stack.length ∧ (∀ i < hi - 1, lo ≤ i → usable (l.heap.array r) i) ∧
    ¬usable (l.heap.array r) (hi - 1)

instance (u : Dll σ) (r lo hi : Nat) (usable : (Nat → TValue) → Nat → Prop)
    [∀ elem, DecidablePred (usable elem)] : Decidable (u.LastBad r lo hi usable) :=
  inferInstanceAs (Decidable (∀ l ∈ u.L, _))

/-- The condition of the loops, with the bad element at the end. -/
theorem Dll.LastBad.only {u : Dll σ} {r lo hi : Nat} {usable : (Nat → TValue) → Nat → Prop}
    {stack : List TValue} {heap : Heap σ} (last : u.LastBad r lo hi usable)
    (top : TableOnTop u r stack heap) :
    OnlyLastBad (usable (heap.array r)) lo hi stack ∧ ¬usable (heap.array r) (hi - 1) := by
  obtain ⟨below, others, bad⟩ := last _ top.live
  refine ⟨⟨fun i low high => others i (by omega) low, fun _ _ _ => .inr ?_⟩, bad⟩
  rintro rfl
  exact absurd below (by simp)

/-- A script that answers with a table of one element where two are read, and leaves
99 elements of `gPUser`. -/
def shortTables : Env Unit :=
  sampleEnv [("gSimStart", .function 1), ("gCalculate", .function 1), ("gSimStop", .function 2)]
    fun f _ h =>
      if f = 1 then ([.table h.bound], h.alloc (arrayTable (fun _ => .number (.fin 7)) 1))
      else ([], (h.alloc (arrayTable (fun i => .number (.ofNat i)) 99)).store 0
        (.string (lit "gPUser")) (.table h.bound))

/-- The missing element is the last one in every loop: nothing but its own channel is
harmed. -/
theorem elements_stored_shortTables :
    (∃ u bar r stack heap,
      (startOverride shortTables >>= fun _ => askStep shortTables) (openedWith shortTables) =
        .ok (.answered bar) u ∧ TableOnTop u r stack heap ∧
      ¬Fits shortTables.toCLib u.outputMarks (heap.array r) 2 ∧
      ∃ w, cCalculateEx shortTables (openedWith shortTables) = .ok ⟨⟩ w ∧
        StepStored shortTables.toCLib u (heap.array r) w) ∧
    (∃ u bar r stack heap, askStart shortTables twoOutputs = .ok (.answered bar) u ∧
      TableOnTop u r stack heap ∧
      ¬FitsStart shortTables.toCLib u.outputMarks (heap.array r) 2 ∧
      ∃ w, cSimStartFlaw shortTables twoOutputs = .ok ⟨⟩ w ∧
        StartStored shortTables.toCLib u (heap.array r) w) ∧
    ∃ u bar r stack heap, askPUser shortTables (openedWith shortTables) = .ok (.answered bar) u ∧
      TableOnTop u r stack heap ∧ ¬(heap.array r 100).isnumber shortTables.toCLib = true ∧
      ∃ w, cSimStop shortTables (openedWith shortTables) = .ok ⟨⟩ w ∧
        StopStored shortTables.toCLib (heap.array r) w := by
  have step : Ensures (startOverride shortTables >>= fun _ => askStep shortTables)
      (openedWith shortTables) (fun reach u => reach = .answered 0 ∧ u.HoldsTable 2 ∧
        u.gNumOutputs = 3 ∧ u.LastBad 2 1 3 (Fits shortTables.toCLib u.outputMarks))
      (fun _ _ => False) := by
    decide +kernel
  have start : Ensures (askStart shortTables) twoOutputs
      (fun reach u => reach = .answered 0 ∧ u.HoldsTable 3 ∧ u.gNumOutputs = 3 ∧
        u.LastBad 3 1 3 (FitsStart shortTables.toCLib u.outputMarks))
      (fun _ _ => False) := by
    decide +kernel
  have stop : Ensures (askPUser shortTables) (openedWith shortTables)
      (fun reach u => reach = .answered 0 ∧ u.HoldsTable 2 ∧
        u.LastBad 2 0 100 fun elem i => (elem (i + 1)).isnumber shortTables.toCLib = true)
      (fun _ _ => False) := by
    decide +kernel
  refine ⟨?_, ?_, ?_⟩
  · obtain ⟨_, u, asked, rfl, holds, three, last⟩ := step.returns
    obtain ⟨stack, heap, top⟩ := holds.onTop
    obtain ⟨only, bad⟩ := last.only top
    refine ⟨u, _, _, stack, heap, asked, top, bad, ?_⟩
    exact ((elements_stored shortTables).1 _ _ _ _ _ _ asked top).1 (by rwa [three])
  · obtain ⟨_, u, asked, rfl, holds, three, last⟩ := start.returns
    obtain ⟨stack, heap, top⟩ := holds.onTop
    obtain ⟨only, bad⟩ := last.only top
    refine ⟨u, _, _, stack, heap, asked, top, bad, ?_⟩
    exact ((elements_stored shortTables).2.1 _ _ _ _ _ _ asked top).1 (by rwa [three])
  · obtain ⟨_, u, asked, rfl, holds, last⟩ := stop.returns
    obtain ⟨stack, heap, top⟩ := holds.onTop
    obtain ⟨only, bad⟩ := last.only top
    refine ⟨u, _, _, stack, heap, asked, top, bad, ?_⟩
    exact ((elements_stored shortTables).2.2 _ _ _ _ _ _ asked top).1 only

/-- A script whose `gCalculate` returns an empty table. -/
def emptyResult : Env Unit :=
  sampleEnv [("gCalculate", .function 1)] fun _ _ h => ([.table h.bound], h.alloc .empty)

/-- The first of two elements is missing, and the step does not return. -/
theorem emptyResult_stops :
    ∃ u r stack heap,
      (startOverride emptyResult >>= fun _ => askStep emptyResult) (openedWith emptyResult) =
        .ok (.answered 0) u ∧ TableOnTop u r stack heap ∧
      ¬∃ w, cCalculateEx emptyResult (openedWith emptyResult) = .ok ⟨⟩ w ∧
        StepStored emptyResult.toCLib u (heap.array r) w := by
  have step : Ensures (startOverride emptyResult >>= fun _ => askStep emptyResult)
      (openedWith emptyResult) (fun reach u => reach = .answered 0 ∧ u.HoldsTable 2)
      (fun _ _ => False) := by
    decide +kernel
  have run : Ensures (cCalculateEx emptyResult) (openedWith emptyResult) (fun _ _ => False)
      (fun e _ => e = .lua .typeError) := by
    decide +kernel
  obtain ⟨_, u, asked, rfl, holds⟩ := step.returns
  obtain ⟨stack, heap, top⟩ := holds.onTop
  refine ⟨u, 2, stack, heap, asked, top, ?_⟩
  rintro ⟨w, returned, _⟩
  exact run.ok returned

end ProfiLua
