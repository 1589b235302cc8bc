import Mathlib.Logic.Function.Basic
import ProfiLua.Lua.Value
import ProfiLua.Program.Outcome

/-!
A Lua state as the C side sees it, and the API functions the repository calls
(`lapi.c`, `lvm.c`, `lauxlib.c`).

The stack is a list with the top first. Its last cell is the slot below `base`
(`stack_init` puts a nil there for the main program; inside a C function it is
the function itself), so `lua_gettop` is one less than the length and a read one
slot too deep is a read of that cell. Going deeper leaves the allocated stack
and stops the model.

What Lua code does is not modelled: `Script` says, for each function value,
argument list and heap, what a call returns or raises. An error that reaches an
unprotected API call runs the panic function and ends the process, so it stops
the program too.
-/

namespace ProfiLua

/-- A Lua table: `luaH_get` as a function, and whether it has a metatable. -/
structure Table where
  node : TValue → TValue
  metatable : Bool

/-- `luaH_new`: no entries, no metatable. -/
def Table.empty : Table := ⟨fun _ => .nil, false⟩

/-- `luaH_set` followed by the assignment. -/
def Table.store (T : Table) (key val : TValue) : Table :=
  { T with node := Function.update T.node key val }

/-- The collectable objects of one Lua state. Addresses from `bound` on are unused
and that of `globals`, the table at `LUA_GLOBALSINDEX`, is used, which the type
keeps true of every heap; `metatables` says which basic types have a metatable,
and `rest` is all that only Lua code reads (closures, upvalues, files, the
world). -/
structure Heap (σ : Type) where
  tables : Nat → Option Table
  bound : Nat
  fresh : ∀ t, bound ≤ t → tables t = none
  globals : Nat
  globals_used : globals < bound
  metatables : LuaType → Bool
  rest : σ

namespace Heap

variable {σ : Type}

/-- The table at an address. -/
def table (h : Heap σ) (t : Nat) : Table := (h.tables t).getD .empty

theorem oneTable_fresh (t : Nat) (above : 1 ≤ t) :
    (if t = 0 then some Table.empty else none) = none :=
  if_neg (by omega)

/-- A new table at the first unused address. -/
def alloc (h : Heap σ) (T : Table) : Heap σ :=
  { h with
    tables := Function.update h.tables h.bound (some T)
    bound := h.bound + 1
    fresh := by
      intro t above
      rw [Function.update_of_ne (by omega)]
      exact h.fresh t (by omega)
    globals_used := Nat.lt_succ_of_lt h.globals_used }

/-- A raw assignment into the table at `t`. -/
def store (h : Heap σ) (t : Nat) (key val : TValue) : Heap σ :=
  if inside : t < h.bound then
    { h with
      tables := Function.update h.tables t (some ((h.table t).store key val))
      fresh := by
        intro u above
        rw [Function.update_of_ne (by omega)]
        exact h.fresh u above }
  else h

@[simp] theorem alloc_bound (h : Heap σ) (T : Table) : (h.alloc T).bound = h.bound + 1 := rfl

@[simp] theorem alloc_globals (h : Heap σ) (T : Table) : (h.alloc T).globals = h.globals := rfl

@[simp] theorem alloc_table_self (h : Heap σ) (T : Table) : (h.alloc T).table h.bound = T := by
  simp [table, alloc]

/-- A new table leaves the others as they are. -/
theorem alloc_table_of_ne (h : Heap σ) (T : Table) {t : Nat} (ne : t ≠ h.bound) :
    (h.alloc T).table t = h.table t := by
  simp [table, alloc, Function.update_of_ne ne]

/-- Writing into the newest table is allocating it with the entry. -/
@[simp] theorem alloc_store (h : Heap σ) (T : Table) (key val : TValue) :
    (h.alloc T).store h.bound key val = h.alloc (T.store key val) := by
  simp [store, alloc, table]

@[simp] theorem store_bound (h : Heap σ) (t : Nat) (key val : TValue) :
    (h.store t key val).bound = h.bound := by
  unfold store
  split <;> rfl

@[simp] theorem store_globals (h : Heap σ) (t : Nat) (key val : TValue) :
    (h.store t key val).globals = h.globals := by
  unfold store
  split <;> rfl

theorem store_table_self (h : Heap σ) {t : Nat} (lt : t < h.bound) (key val : TValue) :
    (h.store t key val).table t = (h.table t).store key val := by
  simp [store, lt, table]

theorem store_table_of_ne (h : Heap σ) {t u : Nat} (ne : u ≠ t) (key val : TValue) :
    (h.store t key val).table u = h.table u := by
  unfold store
  split
  · simp [table, Function.update_of_ne ne]
  · rfl

end Heap

/-- What a call into Lua code gives back. -/
inductive CallResult (σ : Type) where
  | returned (values : List TValue) (heap : Heap σ)
  | raised (error : TValue) (heap : Heap σ)

/-- The behaviour of everything written in Lua: the script files, their
functions, and the metamethods they install. -/
structure Script (σ : Type) where
  /-- The value `luaL_loadfile` pushes for `"%d.lua"`: the chunk as a function,
  or an error message. -/
  load : UChar → Heap σ → TValue × Heap σ
  call : TValue → List TValue → Heap σ → CallResult σ
  /-- `__index` on a value that has a metatable. -/
  index : TValue → TValue → Heap σ → CallResult σ
  /-- `__newindex` on a value that has a metatable. -/
  newindex : TValue → TValue → TValue → Heap σ → CallResult σ

/-- Everything outside the modelled sources: the C runtime, the script, and the
outcome of each `lua_open`, by the epoch of the call (`none` when there is no
memory). -/
structure Env (σ : Type) extends CLib, Script σ where
  luaOpen : Nat → Option (Heap σ)
  luaLOpenlibs : Heap σ → Heap σ

/-- Why an API call did not return. -/
inductive LuaStop where
  /-- A stack access outside the allocated stack. -/
  | stackUnderflow
  /-- A block no allocator can give (`luaM_realloc_` of a negative size). -/
  | memory
  /-- An error raised by Lua code in an unprotected call. -/
  | raised (error : TValue)
  /-- "attempt to index" a value that cannot be indexed, unprotected. -/
  | typeError
  /-- `luaL_argerror` of a library function, for this argument. -/
  | argError (narg : Nat)
deriving DecidableEq

/-- One Lua state. -/
structure LuaState (σ : Type) where
  stack : List TValue
  heap : Heap σ

/-- A program over one Lua state. -/
abbrev LuaM (σ : Type) := EStateM LuaStop (LuaState σ)

section Api

variable {σ : Type} (E : Env σ)

/-- `LUA_GLOBALSINDEX`. -/
def globalsIndex : Int := -10002

/-- `lua_gettop`. -/
def LuaState.gettop (l : LuaState σ) : Int := l.stack.length - 1

/-- `index2adr`: `none` above the top (`luaO_nilobject`) and below the
allocated stack. -/
def index2adr (l : LuaState σ) (idx : Int) : Option TValue :=
  if 0 < idx then
    if idx ≤ l.gettop then l.stack[(l.gettop - idx).toNat]? else none
  else if idx = globalsIndex then some (.table l.heap.globals)
  else l.stack[(-idx - 1).toNat]?

/-- The value at an index: `luaO_nilobject` reads as nil. -/
def valueAt (idx : Int) : LuaM σ TValue := do
  match index2adr (← get) idx with
  | some v => return v
  | none => if 0 < idx then return .nil else throw .stackUnderflow

def push (v : TValue) : LuaM σ PUnit :=
  modify fun l => { l with stack := v :: l.stack }

def luaPushnumber (n : LuaNumber) : LuaM σ PUnit := push (.number n)

/-- `lua_pushinteger` of a non-negative integer. -/
def luaPushinteger (n : Nat) : LuaM σ PUnit := push (.number (.ofNat n))

/-- `lua_pushstring`: the bytes before the first NUL. -/
def luaPushstring (s : Bytes) : LuaM σ PUnit := push (.string (cstr s))

/-- `lua_pop(L, n)`, that is `lua_settop(L, -(n)-1)`. -/
def luaPop (n : Nat) : LuaM σ PUnit := do
  let l ← get
  if n ≤ l.stack.length then set { l with stack := l.stack.drop n }
  else throw .stackUnderflow

/-- `lua_createtable`: `luaH_new` takes its size hints unchecked. -/
def luaCreatetable (narray : Int) : LuaM σ PUnit := do
  let l ← get
  if narray < 0 then throw .memory
  else set { l with stack := .table l.heap.bound :: l.stack, heap := l.heap.alloc .empty }

/-- Runs Lua code on the heap; an error is not caught. -/
def runScript (code : Heap σ → CallResult σ) : LuaM σ (List TValue) := do
  let l ← get
  match code l.heap with
  | .returned values heap =>
      set { l with heap := heap }
      return values
  | .raised error heap =>
      set { l with heap := heap }
      throw (.raised error)

/-- `luaV_gettable`. -/
def luaVGettable (t key : TValue) : LuaM σ TValue := do
  let l ← get
  match t with
  | .table r =>
      let res := (l.heap.table r).node key
      if res ≠ .nil ∨ (l.heap.table r).metatable = false then return res
      else return (← runScript (E.index t key)).headD .nil
  | _ =>
      if l.heap.metatables t.type then return (← runScript (E.index t key)).headD .nil
      else throw .typeError

/-- `luaV_settable`; `luaH_set` refuses a nil and a NaN key. -/
def luaVSettable (t key val : TValue) : LuaM σ PUnit := do
  let l ← get
  match t with
  | .table r =>
      if key = .nil ∨ key = .number .nan then throw .typeError
      else if (l.heap.table r).node key ≠ .nil ∨ (l.heap.table r).metatable = false then
        set { l with heap := l.heap.store r key val }
      else let _ ← runScript (E.newindex t key val)
  | _ =>
      if l.heap.metatables t.type then let _ ← runScript (E.newindex t key val)
      else throw .typeError

/-- `lua_gettable`: the key on top is replaced by the value. -/
def luaGettable (idx : Int) : LuaM σ PUnit := do
  let t ← valueAt idx
  let key ← valueAt (-1)
  let v ← luaVGettable E t key
  modify fun l => { l with stack := v :: l.stack.tail }

/-- `lua_settable`: key and value are popped. -/
def luaSettable (idx : Int) : LuaM σ PUnit := do
  let t ← valueAt idx
  let key ← valueAt (-2)
  let val ← valueAt (-1)
  luaVSettable E t key val
  luaPop 2

/-- `lua_getglobal`, that is `lua_getfield` on `LUA_GLOBALSINDEX`. -/
def luaGetglobal (name : String) : LuaM σ PUnit := do
  let t ← valueAt globalsIndex
  let v ← luaVGettable E t (.string (lit name))
  push v

/-- `lua_setglobal`, that is `lua_setfield` on `LUA_GLOBALSINDEX`. -/
def luaSetglobal (name : String) : LuaM σ PUnit := do
  let t ← valueAt globalsIndex
  let val ← valueAt (-1)
  luaVSettable E t (.string (lit name)) val
  luaPop 1

/-- `lua_type(L, idx) == t`. -/
def luaHasType (idx : Int) (t : LuaType) : LuaM σ Bool := return (← valueAt idx).type = t

def luaIsnil (idx : Int) : LuaM σ Bool := luaHasType idx .nil

def luaIsfunction (idx : Int) : LuaM σ Bool := luaHasType idx .function

def luaIstable (idx : Int) : LuaM σ Bool := luaHasType idx .table

def luaIsnumber (idx : Int) : LuaM σ Bool := return (← valueAt idx).isnumber E.toCLib

def luaIsstring (idx : Int) : LuaM σ Bool := return (← valueAt idx).isstring

def luaTonumber (idx : Int) : LuaM σ LuaNumber := return (← valueAt idx).num E.toCLib

/-- `lua_tostring(L, -1)`: a number on the stack becomes its text. -/
def luaTostring : LuaM σ Bytes := do
  let text := (← valueAt (-1)).text E.toCLib
  if ← luaIsstring (-1) then modify fun l => { l with stack := .string text :: l.stack.tail }
  return text

/-- The results a call with `nresults` wanted leaves on the stack. -/
def adjustResults (nresults : Nat) (values : List TValue) : List TValue :=
  values.take nresults ++ List.replicate (nresults - values.length) .nil

/-- `lua_call(L, nargs, nresults)`. -/
def luaCall (nargs nresults : Nat) : LuaM σ PUnit := do
  let func ← valueAt (-(nargs + 1 : Nat))
  let l ← get
  let values ← runScript (E.call func (l.stack.take nargs).reverse)
  modify fun l' =>
    { l' with stack := (adjustResults nresults values).reverse ++ l'.stack.drop (nargs + 1) }

/-- `lua_pcall(L, 0, LUA_MULTRET, 0)`: all results, or the error value. -/
def luaPcall : LuaM σ PUnit := do
  let func ← valueAt (-1)
  let l ← get
  match E.call func [] l.heap with
  | .returned values heap => set { l with stack := values.reverse ++ l.stack.tail, heap := heap }
  | .raised error heap => set { l with stack := error :: l.stack.tail, heap := heap }

/-- `luaL_loadfile(L, "%d.lua")`. -/
def luaLLoadfile (file : UChar) : LuaM σ PUnit := do
  let l ← get
  let (v, heap) := E.load file l.heap
  set { l with stack := v :: l.stack, heap := heap }

end Api

end ProfiLua
