import Mathlib.Logic.Relation
import ProfiLua.Lua.State

/-!
Running the API: what each call does to a stack of a known shape.

Calls that involve no Lua code have one result, stated as an equation. Calls
that may run Lua code (`lua_gettable`, `lua_setglobal`, `lua_call`) return or
raise, and their rules say what the stack is in either case.
-/

namespace ProfiLua

open Program

variable {σ : Type} (E : Env σ)

/-! ### Reading the stack -/

/-- Index `-(k + 1)` is the slot with `k` values above it. From -10000 on the
indices are pseudo indices. -/
theorem index2adr_below (l : LuaState σ) {k : Nat} (small : k < 10001) :
    index2adr l (-(k + 1 : Nat)) = l.stack[k]? := by
  unfold index2adr globalsIndex
  rw [if_neg (by omega), if_neg (by omega)]
  congr 1
  omega

/-- A valid index is read without changing anything. -/
theorem run_valueAt {l : LuaState σ} {idx : Int} {v : TValue} (h : index2adr l idx = some v) :
    valueAt idx l = .ok v l := by
  unfold valueAt
  rw [run_bind_ok (run_get l), h]
  rfl

section Shapes

variable {u v w : TValue} {rest : List TValue} {heap : Heap σ}

theorem index2adr_top : index2adr ⟨v :: rest, heap⟩ (-1) = some v := index2adr_below _ (by decide)

theorem index2adr_second : index2adr ⟨u :: v :: rest, heap⟩ (-2) = some v :=
  index2adr_below _ (by decide)

theorem index2adr_third : index2adr ⟨u :: v :: w :: rest, heap⟩ (-3) = some w :=
  index2adr_below _ (by decide)

/-- The pseudo index of the globals names their table. -/
theorem index2adr_globals (l : LuaState σ) :
    index2adr l globalsIndex = some (.table l.heap.globals) := by
  simp [index2adr, globalsIndex]

theorem run_valueAt_top : valueAt (-1) ⟨v :: rest, heap⟩ = .ok v ⟨v :: rest, heap⟩ :=
  run_valueAt index2adr_top

/-- The tests for a type and the conversions look at the value on top and leave
it there. -/
theorem run_luaHasType (t : LuaType) :
    luaHasType (-1) t ⟨v :: rest, heap⟩ = .ok (decide (v.type = t)) ⟨v :: rest, heap⟩ := by
  unfold luaHasType
  rw [run_bind_ok run_valueAt_top]
  rfl

theorem run_luaIsnumber :
    luaIsnumber E (-1) ⟨v :: rest, heap⟩ = .ok (v.isnumber E.toCLib) ⟨v :: rest, heap⟩ := by
  unfold luaIsnumber
  rw [run_bind_ok run_valueAt_top]
  rfl

theorem run_luaIsstring :
    luaIsstring (-1) ⟨v :: rest, heap⟩ = .ok v.isstring ⟨v :: rest, heap⟩ := by
  unfold luaIsstring
  rw [run_bind_ok run_valueAt_top]
  rfl

theorem run_luaTonumber :
    luaTonumber E (-1) ⟨v :: rest, heap⟩ = .ok (v.num E.toCLib) ⟨v :: rest, heap⟩ := by
  unfold luaTonumber
  rw [run_bind_ok run_valueAt_top]
  rfl

/-- `lua_tostring` may change the value on top, which it does with a number, and
never what is below it. -/
theorem run_luaTostring :
    ∃ v', luaTostring E ⟨v :: rest, heap⟩ = .ok (v.text E.toCLib) ⟨v' :: rest, heap⟩ := by
  unfold luaTostring
  rw [run_bind_ok run_valueAt_top, run_bind_ok run_luaIsstring]
  cases v.isstring with
  | true => exact ⟨.string (v.text E.toCLib), rfl⟩
  | false => exact ⟨v, rfl⟩

/-! ### Pushing and popping -/

theorem run_push (v : TValue) (l : LuaState σ) :
    push v l = .ok ⟨⟩ { l with stack := v :: l.stack } := rfl

/-- A pop of as many values as there are above the rest. -/
theorem run_luaPop (front : List TValue) {n : Nat} (len : front.length = n) :
    luaPop n ⟨front ++ rest, heap⟩ = .ok ⟨⟩ ⟨rest, heap⟩ := by
  unfold luaPop
  rw [run_bind_ok (run_get _), if_pos (by simp [len])]
  subst len
  rw [List.drop_left]
  rfl

theorem run_luaPop_one : luaPop 1 ⟨v :: rest, heap⟩ = .ok ⟨⟩ ⟨rest, heap⟩ :=
  run_luaPop [v] rfl

/-- A new table is pushed, empty, with a reference that was not in use, if the
size is not negative. -/
theorem run_luaCreatetable {narray : Int} (fits : 0 ≤ narray) :
    luaCreatetable narray ⟨rest, heap⟩ =
      .ok ⟨⟩ ⟨.table heap.bound :: rest, heap.alloc .empty⟩ := by
  unfold luaCreatetable
  rw [run_bind_ok (run_get _), if_neg (by omega)]
  rfl

/-! ### Tables without a metatable -/

/-- An entry of a plain table is read as it is, and takes the place of its key.
-/
theorem run_luaGettable {t : Nat} (plain : (heap.table t).metatable = false) :
    luaGettable E (-2) ⟨v :: .table t :: rest, heap⟩ =
      .ok ⟨⟩ ⟨(heap.table t).node v :: .table t :: rest, heap⟩ := by
  unfold luaGettable
  rw [run_bind_ok (run_valueAt index2adr_second), run_bind_ok run_valueAt_top]
  have get : luaVGettable E (.table t) v ⟨v :: .table t :: rest, heap⟩ =
      .ok ((heap.table t).node v) ⟨v :: .table t :: rest, heap⟩ := by
    unfold luaVGettable
    rw [run_bind_ok (run_get _)]
    simp only [plain, or_true, if_true]
    rfl
  rw [run_bind_ok get]
  rfl

/-- An assignment to the newest table, which has no metatable. Key and value are
popped. -/
theorem run_luaSettable {T : Table} {i : Nat} (plain : T.metatable = false) :
    luaSettable E (-3)
        ⟨v :: .number (.ofNat i) :: .table heap.bound :: rest, heap.alloc T⟩ =
      .ok ⟨⟩ ⟨.table heap.bound :: rest, heap.alloc (T.store (.number (.ofNat i)) v)⟩ := by
  unfold luaSettable
  rw [run_bind_ok (run_valueAt index2adr_third), run_bind_ok (run_valueAt index2adr_second),
    run_bind_ok run_valueAt_top]
  have set : luaVSettable E (.table heap.bound) (.number (.ofNat i)) v
        ⟨v :: .number (.ofNat i) :: .table heap.bound :: rest, heap.alloc T⟩ =
      .ok ⟨⟩ ⟨v :: .number (.ofNat i) :: .table heap.bound :: rest,
        heap.alloc (T.store (.number (.ofNat i)) v)⟩ := by
    unfold luaVSettable
    rw [run_bind_ok (run_get _)]
    simp only [Heap.alloc_table_self, plain, or_true, if_true]
    rw [if_neg (by simp [LuaNumber.ofNat]), Heap.alloc_store]
    rfl
  rw [run_bind_ok set]
  exact run_luaPop [v, .number (.ofNat i)] rfl

end Shapes

/-! ### Reading an entry -/

section Entries

/-- Reading an entry of a table: the value and the heap afterwards, or nothing
if the metatable raises an error. -/
def entry (t : Nat) (key : TValue) (heap : Heap σ) : Option (TValue × Heap σ) :=
  if (heap.table t).node key ≠ .nil ∨ (heap.table t).metatable = false then
    some ((heap.table t).node key, heap)
  else
    match E.index (.table t) key heap with
    | .returned values heap' => some (values.headD .nil, heap')
    | .raised _ _ => none

variable {E} {t : Nat} {key v : TValue} {heap heap' : Heap σ}

/-- Reading an entry that is there, or that a metamethod answers for. -/
theorem run_luaVGettable_entry (read : entry E t key heap = some (v, heap')) (stack : List TValue) :
    luaVGettable E (.table t) key ⟨stack, heap⟩ = .ok v ⟨stack, heap'⟩ := by
  unfold luaVGettable
  rw [run_bind_ok (run_get _)]
  unfold entry at read
  by_cases present : (heap.table t).node key ≠ .nil ∨ (heap.table t).metatable = false
  · rw [if_pos present] at read
    cases read
    exact ok_ite_true present rfl
  · rw [if_neg present] at read
    refine ok_ite_false present ?_
    unfold runScript
    cases result : E.index (.table t) key heap with
    | returned values heap'' =>
        rw [result] at read
        cases read
        exact ok_bind (ok_bind (run_get _) (by simp only [result]; rfl)) rfl
    | raised error heap'' =>
        rw [result] at read
        cases read

/-- Reading an entry whose metamethod raises an error. The stack is as it was.
-/
theorem run_luaVGettable_raises (raises : entry E t key heap = none) (stack : List TValue) :
    ∃ error l, luaVGettable E (.table t) key ⟨stack, heap⟩ = .error (.raised error) l := by
  unfold luaVGettable
  rw [run_bind_ok (run_get _)]
  unfold entry at raises
  by_cases present : (heap.table t).node key ≠ .nil ∨ (heap.table t).metatable = false
  · rw [if_pos present] at raises
    cases raises
  · rw [if_neg present] at raises
    unfold runScript
    cases result : E.index (.table t) key heap with
    | returned values heap'' =>
        rw [result] at raises
        cases raises
    | raised error heap'' =>
        refine ⟨error, ⟨stack, heap''⟩, ?_⟩
        simp only [if_neg present]
        rw [run_bind, run_bind_ok (run_get _)]
        simp only [result]
        rfl

theorem run_luaGettable_raises (raises : entry E heap.globals key heap = none)
    (stack : List TValue) :
    ∃ error l, luaGettable E globalsIndex ⟨key :: stack, heap⟩ = .error (.raised error) l := by
  obtain ⟨error, l, run⟩ := run_luaVGettable_raises raises (key :: stack)
  refine ⟨error, l, ?_⟩
  unfold luaGettable
  rw [run_bind_ok (run_valueAt (index2adr_globals _)), run_bind_ok run_valueAt_top, run_bind, run]

/-- The value of a global in place of its name, as `entry` says. -/
theorem run_luaGettable_entry (read : entry E heap.globals key heap = some (v, heap'))
    (stack : List TValue) :
    luaGettable E globalsIndex ⟨key :: stack, heap⟩ = .ok ⟨⟩ ⟨v :: stack, heap'⟩ :=
  ok_bind (run_valueAt (index2adr_globals _))
    (ok_bind run_valueAt_top (ok_bind (run_luaVGettable_entry read _) rfl))

/-- The function of a call lies below its arguments. -/
theorem valueAt_callee (func : TValue) {args : List TValue} (small : args.length < 10001)
    (stack : List TValue) (heap : Heap σ) :
    valueAt (-(args.length + 1 : Nat)) ⟨args ++ func :: stack, heap⟩ =
      .ok func ⟨args ++ func :: stack, heap⟩ := by
  refine run_valueAt ?_
  rw [index2adr_below _ small]
  simp

/-- A call that returns leaves its results in place of the function and its
arguments: as many as are wanted, the last one on top. -/
theorem run_luaCall (func : TValue) (args : List TValue) {values : List TValue} {nargs : Nat}
    (len : args.length = nargs) (small : nargs < 10001)
    (returned : E.call func args.reverse heap = .returned values heap') (nresults : Nat)
    (stack : List TValue) :
    luaCall E nargs nresults ⟨args ++ func :: stack, heap⟩ =
      .ok ⟨⟩ ⟨(adjustResults nresults values).reverse ++ stack, heap'⟩ := by
  subst len
  have run : runScript (E.call func (List.take args.length (args ++ func :: stack)).reverse)
      ⟨args ++ func :: stack, heap⟩ = .ok values ⟨args ++ func :: stack, heap'⟩ := by
    unfold runScript
    rw [List.take_left, run_bind_ok (run_get _), returned]
    rfl
  refine ok_bind (valueAt_callee func small stack heap) (ok_bind (run_get _) (ok_bind run ?_))
  simp [List.drop_append]

/-- An error of the function goes through the call, as nothing here catches it.
-/
theorem run_luaCall_raises (func : TValue) (args : List TValue) {nargs : Nat}
    (len : args.length = nargs) (small : nargs < 10001) {error : TValue}
    (raised : E.call func args.reverse heap = .raised error heap') (nresults : Nat)
    (stack : List TValue) :
    ∃ l, luaCall E nargs nresults ⟨args ++ func :: stack, heap⟩ = .error (.raised error) l := by
  subst len
  refine ⟨⟨args ++ func :: stack, heap'⟩, ?_⟩
  unfold luaCall
  rw [run_bind_ok (valueAt_callee func small stack heap), run_bind_ok (run_get _), run_bind]
  unfold runScript
  simp only [List.take_left]
  rw [run_bind_ok (run_get _), raised]
  rfl

end Entries

/-! ### Arrays -/

/-- The table a loop builds that stores `entry 1`, …, `entry n`. -/
def arrayTable (entry : Nat → TValue) : Nat → Table
  | 0 => .empty
  | n + 1 => (arrayTable entry n).store (.number (.ofNat (n + 1))) (entry (n + 1))

@[simp] theorem arrayTable_metatable (entry : Nat → TValue) (n : Nat) :
    (arrayTable entry n).metatable = false := by
  induction n with
  | zero => rfl
  | succ n ih => exact ih

/-- The entry at a stored key: a later one does not overwrite it. -/
theorem arrayTable_node (entry : Nat → TValue) {n i : Nat} (pos : 1 ≤ i) (le : i ≤ n) :
    (arrayTable entry n).node (.number (.ofNat i)) = entry i := by
  induction n with
  | zero => omega
  | succ n ih =>
      simp only [arrayTable, Table.store]
      by_cases last : i = n + 1
      · subst last
        rw [Function.update_self]
      · rw [Function.update_of_ne (by simpa using last)]
        exact ih (by omega)

/-- An array has no other keys. -/
theorem arrayTable_node_other (entry : Nat → TValue) {n : Nat} {key : TValue}
    (other : ∀ i, 1 ≤ i → i ≤ n → key ≠ .number (.ofNat i)) :
    (arrayTable entry n).node key = .nil := by
  induction n with
  | zero => rfl
  | succ n ih =>
      simp only [arrayTable, Table.store]
      rw [Function.update_of_ne (other (n + 1) (by omega) (by omega))]
      exact ih fun i pos le => other i pos (by omega)

/-! ### Calls that may run Lua code -/

/-- An error raised by Lua code. -/
def LuaStop.Raised (e : LuaStop) : Prop := ∃ error, e = .raised error

section Script

variable {rest : List TValue} {heap : Heap σ}

/-- Running Lua code: it returns with a new heap, or the error it raises goes
on. It cannot reach the stack of its caller. -/
theorem runScript_rule (code : Heap σ → CallResult σ) :
    Ensures (runScript code) ⟨rest, heap⟩
      (fun values l => ∃ heap', code heap = .returned values heap' ∧ l = ⟨rest, heap'⟩)
      (fun e _ => e.Raised) := by
  unfold runScript
  rw [ensures_bind, ensures_get]
  cases result : code heap with
  | returned values heap' =>
      simp only
      exact Ensures.bind (Q := fun _ l => l = ⟨rest, heap'⟩) (.modify rfl)
        fun _ l same => .pure ⟨heap', rfl, same⟩
  | raised error heap' =>
      simp only
      exact Ensures.bind (Q := fun _ _ => True) (.modify trivial) fun _ _ _ => .throw ⟨error, rfl⟩

/-- What changes the heap while the DLL looks a function up and calls it: Lua
code, and the new argument table. -/
inductive HeapStep : Heap σ → Heap σ → Prop where
  | call {func : TValue} {args values : List TValue} {h h' : Heap σ}
      (returned : E.call func args h = .returned values h') : HeapStep h h'
  | index {t key : TValue} {values : List TValue} {h h' : Heap σ}
      (returned : E.index t key h = .returned values h') : HeapStep h h'
  | alloc (T : Table) (h : Heap σ) : HeapStep h (h.alloc T)

/-- Any number of such changes. -/
abbrev Evolves : Heap σ → Heap σ → Prop := Relation.ReflTransGen (HeapStep E)

/-- What reading an entry gives: its value as it is, or what a metatable makes of
a missing one. -/
structure Looked (t : Nat) (key : TValue) (heap : Heap σ) (v : TValue) (heap' : Heap σ) :
    Prop where
  evolves : Evolves E heap heap'
  present : (heap.table t).node key ≠ .nil → v = (heap.table t).node key ∧ heap' = heap

/-- An entry is read without touching the stack. What the heap is afterwards is
left open if a metamethod was called. -/
theorem luaVGettable_rule (t : Nat) (key : TValue) :
    Ensures (luaVGettable E (.table t) key) ⟨rest, heap⟩
      (fun v l => ∃ heap', l = ⟨rest, heap'⟩ ∧ Looked E t key heap v heap')
      (fun e _ => e.Raised) := by
  unfold luaVGettable
  rw [ensures_bind, ensures_get]
  refine .ite (fun _ => .pure ⟨heap, rfl, .refl, fun _ => ⟨rfl, rfl⟩⟩) fun absent => ?_
  refine (runScript_rule _).bind fun _ _ ⟨heap', returned, same⟩ => .pure ⟨heap', same, ?_, ?_⟩
  · exact .single (.index returned)
  · exact fun present => absurd (.inl present) absent

/-- A global is looked up in the table of the globals, and pushed in place of
its name. -/
theorem luaGettable_globals_rule (key : TValue) :
    Ensures (luaGettable E globalsIndex) ⟨key :: rest, heap⟩
      (fun _ l => ∃ v heap', l = ⟨v :: rest, heap'⟩ ∧ Looked E heap.globals key heap v heap')
      (fun e _ => e.Raised) := by
  refine .step (run_valueAt (index2adr_globals _)) (.step run_valueAt_top ?_)
  refine (luaVGettable_rule E _ key).bind fun v l ⟨heap', same, looked⟩ => .modify ?_
  rw [same]
  exact ⟨v, heap', rfl, looked⟩

/-- A global that has a value is read as it is, whatever metatable the globals
may have. -/
theorem run_luaGettable_globals (rest : List TValue) (heap : Heap σ) {key : TValue}
    (present : (heap.table heap.globals).node key ≠ .nil) :
    luaGettable E globalsIndex ⟨key :: rest, heap⟩ =
      .ok ⟨⟩ ⟨(heap.table heap.globals).node key :: rest, heap⟩ := by
  have get : luaVGettable E (.table heap.globals) key ⟨key :: rest, heap⟩ =
      .ok ((heap.table heap.globals).node key) ⟨key :: rest, heap⟩ := by
    unfold luaVGettable
    rw [run_bind_ok (run_get _)]
    simp only [ne_eq, present, not_false_eq_true, true_or, if_true]
    rfl
  exact ok_bind (run_valueAt (index2adr_globals _)) (ok_bind run_valueAt_top (ok_bind get rfl))

/-- A global is looked up without touching the rest of the stack. -/
theorem luaGettable_entry_rule (key : TValue) :
    Ensures (luaGettable E globalsIndex) ⟨key :: rest, heap⟩
      (fun _ l => ∃ v heap', entry E heap.globals key heap = some (v, heap') ∧
        l = ⟨v :: rest, heap'⟩)
      (fun e _ => e.Raised) := by
  cases read : entry E heap.globals key heap with
  | none =>
      obtain ⟨error, l, run⟩ := run_luaGettable_raises read rest
      exact .of_error run ⟨error, rfl⟩
  | some found => exact .of_ok (run_luaGettable_entry read rest) ⟨found.1, found.2, rfl, rfl⟩

/-- Assigning an entry of a table: the heap afterwards, or nothing if the metatable
raises an error. -/
def assign (t : Nat) (key v : TValue) (heap : Heap σ) : Option (Heap σ) :=
  if (heap.table t).node key ≠ .nil ∨ (heap.table t).metatable = false then
    some (heap.store t key v)
  else
    match E.newindex (.table t) key v heap with
    | .returned _ heap' => some heap'
    | .raised _ _ => none

/-- Where assigning a global leads: into the table of the globals, or through its
metatable. -/
def Assigned (name : String) (v : TValue) (heap heap' : Heap σ) : Prop :=
  heap' = heap.store heap.globals (.string (lit name)) v ∨
    ∃ values, E.newindex (.table heap.globals) (.string (lit name)) v heap = .returned values heap'

theorem assigned_of_assign {name : String} {v : TValue} {heap' : Heap σ}
    (done : assign E heap.globals (.string (lit name)) v heap = some heap') :
    Assigned E name v heap heap' := by
  unfold assign at done
  split at done
  · exact .inl (Option.some.inj done).symm
  · split at done
    · rename_i values _ returned
      exact .inr ⟨values, by rw [returned, Option.some.inj done]⟩
    · cases done

/-- Storing an entry does what `assign` says, and pops nothing. The keys nil and
NaN would be errors. -/
theorem luaVSettable_rule (t : Nat) {key : TValue} (keyed : ¬(key = .nil ∨ key = .number .nan))
    (v : TValue) :
    Ensures (luaVSettable E (.table t) key v) ⟨rest, heap⟩
      (fun _ l => ∃ heap', l = ⟨rest, heap'⟩ ∧ assign E t key v heap = some heap')
      (fun e _ => e.Raised) := by
  unfold luaVSettable assign
  rw [ensures_bind, ensures_get]
  refine .ite (fun bad => absurd bad keyed) fun _ => .ite (fun present => ?_) fun absent => ?_
  · exact .modify ⟨_, rfl, by rw [if_pos present]⟩
  · refine (runScript_rule _).bind fun values _ ⟨heap', returned, same⟩ => .pure ⟨heap', same, ?_⟩
    rw [if_neg absent, returned]

/-- Assigning a global pops the value and does to the globals what `assign` says. -/
theorem luaSetglobal_rule (name : String) (v : TValue) :
    Ensures (luaSetglobal E name) ⟨v :: rest, heap⟩
      (fun _ l => ∃ heap', l = ⟨rest, heap'⟩ ∧
        assign E heap.globals (.string (lit name)) v heap = some heap')
      (fun e _ => e.Raised) := by
  refine .step (run_valueAt (index2adr_globals _)) (.step run_valueAt_top ?_)
  refine (luaVSettable_rule E heap.globals (by simp) v).bind fun _ l ⟨heap', same, done⟩ => ?_
  rw [same]
  exact .of_ok run_luaPop_one ⟨heap', rfl, done⟩

theorem adjustResults_one (values : List TValue) :
    adjustResults 1 values = [values.headD .nil] := by
  cases values with
  | nil => rfl
  | cons v rest => simp [adjustResults]

/-- `lua_call` replaces the function and its arguments by the results, or is
left by the error of the function. -/
theorem luaCall_rule (func : TValue) (args : List TValue) {nargs : Nat} (len : args.length = nargs)
    (small : nargs < 10001) (nresults : Nat) :
    Ensures (luaCall E nargs nresults) ⟨args ++ func :: rest, heap⟩
      (fun _ l => ∃ values heap', E.call func args.reverse heap = .returned values heap' ∧
        l = ⟨(adjustResults nresults values).reverse ++ rest, heap'⟩)
      (fun e _ => e.Raised) := by
  subst len
  refine .step (run_valueAt (v := func) ?_) ?_
  · rw [index2adr_below _ small]
    simp
  · rw [ensures_bind, ensures_get]
    simp only [List.take_left]
    refine (runScript_rule _).bind fun values l ⟨heap', called, same⟩ => .modify ?_
    refine ⟨values, heap', called, ?_⟩
    rw [same]
    simp [List.drop_append]

/-- `lua_pcall` catches every error and leaves its message in place of the
function. -/
theorem luaPcall_rule (func : TValue) {A : LuaStop → LuaState σ → Prop} :
    Ensures (luaPcall E) ⟨func :: rest, heap⟩
      (fun _ l => ∃ results heap', l = ⟨results ++ rest, heap'⟩) A := by
  refine .step run_valueAt_top ?_
  rw [ensures_bind, ensures_get]
  cases E.call func [] heap with
  | returned values heap' => exact .modify ⟨values.reverse, heap', rfl⟩
  | raised error heap' => exact .modify ⟨[error], heap', rfl⟩

end Script

end ProfiLua
