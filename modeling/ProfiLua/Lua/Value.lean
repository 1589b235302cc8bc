import Mathlib.Data.Rat.Defs

/-!
Lua values and the conversions between numbers and strings (`lobject.c`,
`lvm.c`, `lapi.c`).

A `lua_Number` is a C `double`. Its finite values are exact rationals, so the
two zeros are one value; nothing in the library or in the DLL tells them apart.
What the C runtime computes (`strtod`, `strtoul`, `sprintf`, and a cast whose
operand lies outside the target type) is a parameter, `CLib`: every result
about the program holds for each of them.
-/

namespace ProfiLua

/-- `unsigned char`. -/
abbrev UChar := UInt8

/-- A counted Lua string, or the bytes of a C string. -/
abbrev Bytes := List UInt8

/-- `lua_Number`: a `double`. -/
inductive LuaNumber where
  | fin (q : Rat)
  | inf (negative : Bool)
  | nan
deriving DecidableEq

namespace LuaNumber

/-- `cast_num` of a non-negative integer. -/
def ofNat (n : Nat) : LuaNumber := .fin n

/-- The part of a finite number before the point, as a C cast to an integer
type takes it. -/
def trunc : LuaNumber → Option Int
  | .fin q => some (q.num.tdiv q.den)
  | _ => none

/-- `a > b` on doubles; every comparison with a NaN is false. -/
def gt : LuaNumber → LuaNumber → Bool
  | .fin a, .fin b => decide (b < a)
  | .fin _, .inf negative => negative
  | .inf negative, .fin _ => !negative
  | .inf a, .inf b => !a && b
  | _, _ => false

/-- Different naturals are different numbers, so the keys of an array differ. -/
theorem ofNat_injective {m n : Nat} (h : ofNat m = ofNat n) : m = n := by
  simpa [ofNat] using h

@[simp] theorem ofNat_inj {m n : Nat} : ofNat m = ofNat n ↔ m = n :=
  ⟨ofNat_injective, fun h => h ▸ rfl⟩

end LuaNumber

/-- What the C runtime supplies. `strtod` and `strtoul` return the value and
the number of bytes up to `endptr`. -/
structure CLib where
  strtod : Bytes → LuaNumber × Nat
  strtoul : Bytes → Nat → Nat × Nat
  /-- `sprintf(s, "%.14g", n)`. -/
  number2str : LuaNumber → Bytes
  /-- `(unsigned char)d` where the value does not fit the type. -/
  ucharOutOfRange : LuaNumber → UChar
  /-- `(unsigned)d` where the value does not fit the type. -/
  unsignedOutOfRange : LuaNumber → UInt32

/-- The types `lua_type` distinguishes. -/
inductive LuaType where
  | nil | boolean | lightuserdata | number | string | table | function | userdata | thread
deriving DecidableEq

/-- A Lua value. Collectable objects are addresses; only tables have contents
that the C side reads. -/
inductive TValue where
  | nil
  | boolean (b : Bool)
  | lightuserdata (p : Nat)
  | number (n : LuaNumber)
  | string (s : Bytes)
  | table (t : Nat)
  | function (f : Nat)
  | userdata (u : Nat)
  | thread (t : Nat)
deriving DecidableEq

/-- `lua_type` of a value. -/
def TValue.type : TValue → LuaType
  | .nil => .nil
  | .boolean _ => .boolean
  | .lightuserdata _ => .lightuserdata
  | .number _ => .number
  | .string _ => .string
  | .table _ => .table
  | .function _ => .function
  | .userdata _ => .userdata
  | .thread _ => .thread

/-- What a C string function reads of a byte sequence: everything before the
first NUL. -/
def cstr (s : Bytes) : Bytes := s.takeWhile (· ≠ 0)

/-- `isspace` in the C locale. -/
def isspace (c : UInt8) : Bool := c = 32 || (9 ≤ c && c ≤ 13)

/-- The bytes of an ASCII literal. -/
def lit (s : String) : Bytes := s.toList.map fun c => c.toNat.toUInt8

/-- `luaO_str2d`, with the binary constants this repository adds: a `b` where
the conversion stopped makes the digits behind it a binary number. -/
def luaOStr2d (C : CLib) (s : Bytes) : Option LuaNumber :=
  let s := cstr s
  let (d, endptr) := C.strtod s
  if endptr = 0 then none
  else
    let (d, endptr) :=
      if s[endptr]? = some 120 ∨ s[endptr]? = some 88 then
        let (u, n) := C.strtoul s 16
        (LuaNumber.ofNat u, n)
      else (d, endptr)
    let (d, endptr) :=
      if s[endptr]? = some 98 ∨ s[endptr]? = some 66 then
        let (u, n) := C.strtoul (s.drop (endptr + 1)) 2
        (LuaNumber.ofNat u, endptr + 1 + n)
      else (d, endptr)
    if (s.drop endptr).dropWhile isspace = [] then some d else none

/-- `tonumber`: a number, or a string that reads as one. -/
def TValue.tonumber (C : CLib) : TValue → Option LuaNumber
  | .number n => some n
  | .string s => luaOStr2d C s
  | _ => none

/-- `lua_isnumber` of a value. -/
def TValue.isnumber (C : CLib) (v : TValue) : Bool := (v.tonumber C).isSome

/-- `lua_tonumber` of a value: 0 when it is not convertible. -/
def TValue.num (C : CLib) (v : TValue) : LuaNumber := (v.tonumber C).getD (.fin 0)

/-- `lua_isstring` of a value. -/
def TValue.isstring (v : TValue) : Bool := v.type = .string || v.type = .number

/-- `lua_tolstring` of a value: a number is written out. -/
def TValue.tostring (C : CLib) : TValue → Option Bytes
  | .string s => some s
  | .number n => some (C.number2str n)
  | _ => none

/-- The text `lua_tolstring` gives, empty when there is none. -/
def TValue.text (C : CLib) (v : TValue) : Bytes := (v.tostring C).getD []

/-- `(unsigned char)d`. -/
def castUChar (C : CLib) (d : LuaNumber) : UChar :=
  match d.trunc with
  | some i => if 0 ≤ i ∧ i ≤ 255 then i.toNat.toUInt8 else C.ucharOutOfRange d
  | none => C.ucharOutOfRange d

@[simp] theorem TValue.tonumber_number (C : CLib) (n : LuaNumber) :
    (TValue.number n).tonumber C = some n := rfl

@[simp] theorem TValue.num_number (C : CLib) (n : LuaNumber) :
    (TValue.number n).num C = n := rfl

@[simp] theorem TValue.isnumber_number (C : CLib) (n : LuaNumber) :
    (TValue.number n).isnumber C = true := rfl

/-- What `lua_isstring` accepts is what `lua_tolstring` can convert. -/
theorem TValue.tostring_isSome (C : CLib) (v : TValue) :
    (v.tostring C).isSome = v.isstring := by
  cases v <;> rfl

end ProfiLua
