import Mathlib.Data.Rat.Floor
import ProfiLua.Lua.Run

/-!
C functions called from Lua (`lauxlib.c`, `ldo.c`, `luaconf.h`).

A C function works on a frame of the Lua stack, the arguments above the slot of
the function itself, and on a world of its own: lists in memory, devices, what
a driver was told. It returns the number of its results or raises an error.
Nothing here catches an error; whatever the world was then, it remains.
-/

namespace ProfiLua

open Program

/-- What the C runtime makes of a number that does not fit the target type. -/
structure Casts where
  /-- `lua_number2integer`. -/
  number2integer : LuaNumber → Int32
  /-- `(int)d`; `long` is the same type. -/
  int : LuaNumber → Int32

/-- Everything outside the modelled sources, for a C function. -/
structure LibEnv (σ : Type) extends Env σ where
  casts : Casts

/-! ### Numbers as integers -/

/-- To the nearest integer, and to the even one from the middle. -/
def roundEven (q : Rat) : Int :=
  if q - q.floor < 1 / 2 then q.floor
  else if 1 / 2 < q - q.floor then q.floor + 1
  else if q.floor % 2 = 0 then q.floor
  else q.floor + 1

/-- `lua_number2integer`: adding `1.5 * 2^52` leaves the rounded number in the
low word of the sum, as long as the number is below `2^51`. -/
def luaNumber2integer (C : Casts) (d : LuaNumber) : Int32 :=
  match d with
  | .fin q => if -2 ^ 51 < q ∧ q < 2 ^ 51 then Int32.ofInt (roundEven q) else C.number2integer d
  | _ => C.number2integer d

/-- `(unsigned)d`. -/
def castUnsigned (C : CLib) (d : LuaNumber) : UInt32 :=
  match d.trunc with
  | some i => if 0 ≤ i ∧ i < 2 ^ 32 then i.toNat.toUInt32 else C.unsignedOutOfRange d
  | none => C.unsignedOutOfRange d

/-- `(int)d`. -/
def castInt (C : Casts) (d : LuaNumber) : Int32 :=
  match d.trunc with
  | some i => if -2 ^ 31 ≤ i ∧ i < 2 ^ 31 then Int32.ofInt i else C.int d
  | none => C.int d

/-- An integer is rounded to itself. -/
theorem roundEven_int (i : Int) : roundEven i = i := by
  have floor : Rat.floor (i : Rat) = i := Rat.floor_intCast i
  simp [roundEven, floor]

/-- An integer is converted as it is, modulo `2^32`. -/
theorem luaNumber2integer_int (C : Casts) {i : Int} (low : -2 ^ 51 < i) (high : i < 2 ^ 51) :
    luaNumber2integer C (.fin i) = Int32.ofInt i := by
  have low' : (-2 ^ 51 : Rat) < i := by exact_mod_cast low
  have high' : (i : Rat) < 2 ^ 51 := by exact_mod_cast high
  simp only [luaNumber2integer]
  rw [if_pos ⟨low', high'⟩, roundEven_int]

@[simp] theorem LuaNumber.trunc_int (i : Int) : LuaNumber.trunc (.fin i) = some i := by
  simp [LuaNumber.trunc]

@[simp] theorem LuaNumber.trunc_ofNat (n : Nat) : (LuaNumber.ofNat n).trunc = some (n : Int) := by
  simp [LuaNumber.trunc, LuaNumber.ofNat]

/-- Both conversions to an integer take a number that is an `unsigned` to it. -/
theorem castUnsigned_ofNat (C : CLib) (n : UInt32) :
    castUnsigned C (.ofNat n.toNat) = n := by
  have small := n.toNat_lt
  simp only [castUnsigned, LuaNumber.trunc_ofNat]
  rw [if_pos (by omega)]
  simp

/-- A device number that is given as an integer is converted to that number, also
above 2^31, where the conversion has to wrap. -/
theorem luaNumber2integer_ofNat (C : Casts) (n : UInt32) :
    (luaNumber2integer C (.ofNat n.toNat)).toUInt32 = n := by
  have small := n.toNat_lt
  have cast : LuaNumber.ofNat n.toNat = .fin ((n.toNat : Int) : Rat) := by simp [LuaNumber.ofNat]
  rw [cast, luaNumber2integer_int C (by omega) (by omega)]
  simp [Int32.ofInt]

/-! ### Programs -/

/-- What a C function works on. -/
structure Calling (σ ω : Type) where
  L : LuaState σ
  world : ω

/-- Why a C function did not return. -/
inductive LibStop where
  | lua (reason : LuaStop)
  /-- A pointer led to no cell, or a list had no end. -/
  | fault
  /-- A loop was not over after the rounds it was given. -/
  | endless
deriving DecidableEq

abbrev LibM (σ ω : Type) := EStateM LibStop (Calling σ ω)

/-- Programs on the world alone; they stop at a fault. -/
abbrev WorldM (ω : Type) := EStateM Unit ω

section Lift

variable {σ ω α : Type}

/-- An API call of a C function. -/
def onLua (call : LuaM σ α) : LibM σ ω α := fun c =>
  match call c.L with
  | .ok a l => .ok a { c with L := l }
  | .error e l => .error (.lua e) { c with L := l }

/-- A step that involves no Lua. -/
def onWorld (prog : WorldM ω α) : LibM σ ω α := fun c =>
  match prog c.world with
  | .ok a w => .ok a { c with world := w }
  | .error _ w => .error .fault { c with world := w }

/-- An API call of a library function leaves the world of the library alone. -/
theorem run_onLua {call : LuaM σ α} {l l' : LuaState σ} {w : ω} {a : α}
    (run : call l = .ok a l') : onLua call ⟨l, w⟩ = .ok a ⟨l', w⟩ := by
  simp only [onLua, run]

theorem run_onLua_error {call : LuaM σ α} {l l' : LuaState σ} {w : ω} {e : LuaStop}
    (run : call l = .error e l') :
    (onLua call : LibM σ ω α) ⟨l, w⟩ = .error (.lua e) ⟨l', w⟩ := by
  simp only [onLua, run]

/-- What the library does to its world leaves the Lua state alone. -/
theorem run_onWorld {prog : WorldM ω α} {l : LuaState σ} {w w' : ω} {a : α}
    (run : prog w = .ok a w') : onWorld prog ⟨l, w⟩ = .ok a ⟨l, w'⟩ := by
  simp only [onWorld, run]

end Lift

/-! ### Arguments and results -/

section Frame

variable {σ ω : Type} (E : LibEnv σ)

/-- `lua_gettop`. -/
def luaGettop : LuaM σ Int := return (← get).gettop

/-- `lua_type(L, idx)`. -/
def luaType (idx : Int) : LuaM σ LuaType := return (← valueAt idx).type

/-- `lua_tointeger` of a value: 0 when it is not convertible. -/
def TValue.int (E : LibEnv σ) (v : TValue) : Int32 :=
  match v.tonumber E.toCLib with
  | some d => luaNumber2integer E.casts d
  | none => 0

/-- `luaL_checkinteger`. -/
def luaLCheckinteger (narg : Nat) : LuaM σ Int32 := do
  let v ← valueAt narg
  if v.int E = 0 ∧ v.isnumber E.toCLib = false then throw (.argError narg) else return v.int E

/-- `luaL_checknumber`. -/
def luaLChecknumber (narg : Nat) : LuaM σ LuaNumber := do
  let v ← valueAt narg
  if v.num E.toCLib = .fin 0 ∧ v.isnumber E.toCLib = false then throw (.argError narg)
  else return v.num E.toCLib

/-- The stack of a C function: its arguments, above the function. -/
def frame (func : TValue) (args : List TValue) : List TValue := args.reverse ++ [func]

/-- `luaD_precall` of a C function: the values it returns, or `none` when its
negative count is taken for a yield. -/
def luaDPrecall (body : LibM σ ω Int) : LibM σ ω (Option (List TValue)) := do
  let n ← body
  if n < 0 then return none
  else return some ((← get).L.stack.take n.toNat).reverse

/-- A count of 1 takes the value on top. -/
theorem run_luaDPrecall {body : LibM σ ω Int} {c : Calling σ ω} {v : TValue} {rest : List TValue}
    {heap : Heap σ} {w : ω} (run : body c = .ok 1 ⟨⟨v :: rest, heap⟩, w⟩) :
    luaDPrecall body c = .ok (some [v]) ⟨⟨v :: rest, heap⟩, w⟩ :=
  ok_bind run (ok_ite_false (by decide) (ok_bind (run_get _) rfl))

/-- A negative count reads as a yield. -/
theorem run_luaDPrecall_yield {body : LibM σ ω Int} {c t : Calling σ ω} {n : Int} (neg : n < 0)
    (run : body c = .ok n t) : luaDPrecall body c = .ok none t :=
  ok_bind run (ok_ite_true neg rfl)

/-- An error goes through the call to whoever protects it. -/
theorem run_luaDPrecall_error {body : LibM σ ω Int} {c t : Calling σ ω} {e : LibStop}
    (run : body c = .error e t) : luaDPrecall body c = .error e t := by
  unfold luaDPrecall
  rw [run_bind, run]

theorem run_luaGettop (func : TValue) (args : List TValue) (heap : Heap σ) :
    luaGettop ⟨frame func args, heap⟩ = .ok (args.length : Int) ⟨frame func args, heap⟩ := by
  unfold luaGettop
  rw [run_bind_ok (run_get _)]
  simp [LuaState.gettop, frame]

/-- The arguments lie at the positive indices. -/
theorem index2adr_arg {func : TValue} {args : List TValue} {heap : Heap σ} {narg : Nat} {v : TValue}
    (pos : 1 ≤ narg) (arg : args[narg - 1]? = some v) :
    index2adr ⟨frame func args, heap⟩ narg = some v := by
  obtain ⟨inside, value⟩ := List.getElem?_eq_some_iff.mp arg
  have top : LuaState.gettop ⟨frame func args, heap⟩ = args.length := by
    simp [LuaState.gettop, frame]
  unfold index2adr
  rw [if_pos (by omega), top, if_pos (by omega)]
  have position : ((args.length : Int) - narg).toNat = args.length - 1 - (narg - 1) := by omega
  rw [position]
  simp only [frame]
  rw [List.getElem?_append_left (by simp; omega), List.getElem?_reverse (by omega)]
  rw [← arg]
  congr 1
  omega

/-- What is no number is converted to 0. That is why the check of an argument only
looks further at a 0. -/
theorem TValue.int_of_not_number {v : TValue} (h : v.isnumber E.toCLib = false) : v.int E = 0 := by
  unfold TValue.isnumber at h
  unfold TValue.int
  cases reads : v.tonumber E.toCLib with
  | some d => simp [reads] at h
  | none => rfl

theorem TValue.num_of_not_number {C : CLib} {v : TValue} (h : v.isnumber C = false) :
    v.num C = .fin 0 := by
  unfold TValue.isnumber at h
  unfold TValue.num
  cases reads : v.tonumber C with
  | some d => simp [reads] at h
  | none => rfl

variable {func v : TValue} {args : List TValue} {heap : Heap σ} {narg : Nat}

/-- An argument that is a number, or a string that reads as one. -/
theorem run_luaLCheckinteger (pos : 1 ≤ narg) (arg : args[narg - 1]? = some v)
    (number : v.isnumber E.toCLib = true) :
    luaLCheckinteger E narg ⟨frame func args, heap⟩ = .ok (v.int E) ⟨frame func args, heap⟩ := by
  unfold luaLCheckinteger
  rw [run_bind_ok (run_valueAt (index2adr_arg pos arg)), if_neg (by simp [number])]
  rfl

/-- Any other argument raises an error that names its position. -/
theorem run_luaLCheckinteger_error (pos : 1 ≤ narg) (arg : args[narg - 1]? = some v)
    (number : v.isnumber E.toCLib = false) :
    luaLCheckinteger E narg ⟨frame func args, heap⟩ =
      .error (.argError narg) ⟨frame func args, heap⟩ := by
  unfold luaLCheckinteger
  rw [run_bind_ok (run_valueAt (index2adr_arg pos arg)),
    if_pos ⟨TValue.int_of_not_number E number, number⟩]
  rfl

theorem run_luaLChecknumber (pos : 1 ≤ narg) (arg : args[narg - 1]? = some v)
    (number : v.isnumber E.toCLib = true) :
    luaLChecknumber E narg ⟨frame func args, heap⟩ =
      .ok (v.num E.toCLib) ⟨frame func args, heap⟩ := by
  unfold luaLChecknumber
  rw [run_bind_ok (run_valueAt (index2adr_arg pos arg)), if_neg (by simp [number])]
  rfl

theorem run_luaLChecknumber_error (pos : 1 ≤ narg) (arg : args[narg - 1]? = some v)
    (number : v.isnumber E.toCLib = false) :
    luaLChecknumber E narg ⟨frame func args, heap⟩ =
      .error (.argError narg) ⟨frame func args, heap⟩ := by
  unfold luaLChecknumber
  rw [run_bind_ok (run_valueAt (index2adr_arg pos arg)),
    if_pos ⟨TValue.num_of_not_number number, number⟩]
  rfl

end Frame

/-! ### A sample world -/

/-- One table, the globals, and no metatables. -/
def quietHeap : Heap Unit where
  tables := fun t => if t = 0 then some .empty else none
  bound := 1
  fresh := Heap.oneTable_fresh
  globals := 0
  globals_used := Nat.zero_lt_one
  metatables := fun _ => false
  rest := ()

/-- A plain table with these elements from index 1 on, and no other entries. -/
def listTable (values : List TValue) : Table where
  node
    | .number (.fin q) => if q.den = 1 ∧ 1 ≤ q.num then values.getD (q.num.toNat - 1) .nil else .nil
    | _ => .nil
  metatable := false

/-- The elements of the sample table, from index 1 on. -/
theorem listTable_node (values : List TValue) (i : Nat) :
    (listTable values).node (.number (.ofNat (1 + i))) = values.getD i .nil := by
  simp only [listTable, LuaNumber.ofNat, Rat.den_natCast, Rat.num_natCast]
  rw [if_pos ⟨trivial, by omega⟩]
  congr 1
  omega

/-- The sample heap with such a table at address 1. -/
def listHeap (values : List TValue) : Heap Unit := quietHeap.alloc (listTable values)

/-- A world in which no Lua code runs and no string reads as a number. -/
def quietEnv : LibEnv Unit where
  strtod := fun _ => (.fin 0, 0)
  strtoul := fun _ _ => (0, 0)
  number2str := fun _ => lit "0"
  ucharOutOfRange := fun _ => 0
  unsignedOutOfRange := fun _ => 0
  load := fun _ h => (.nil, h)
  call := fun _ _ h => .raised .nil h
  index := fun _ _ h => .raised .nil h
  newindex := fun _ _ _ h => .raised .nil h
  luaOpen := fun _ => some quietHeap
  luaLOpenlibs := id
  casts := ⟨fun _ => 0, fun _ => 0⟩

end ProfiLua
