import ProfiLua.Lua.Library

/-!
The digit functions of the bit library (`profibit.c`), registered for Lua in the
table `probit`.

Both fill a buffer on the C stack from the right and pass it on with a count.
The buffer is not initialised, so a byte that was not written has no value. The
counts are 32-bit integers whose arithmetic wraps around, as the compiled code
does it.
-/

namespace ProfiLua

open Program

/-- `SBits`. -/
abbrev SBits := Int32

/-- `UBits`. -/
abbrev UBits := UInt32

/-- `barg` of a value that is a number: the low word of the sum with
`1.5 * 2^52`. -/
def TValue.bits {σ : Type} (E : LibEnv σ) (v : TValue) : UBits :=
  (luaNumber2integer E.casts (v.num E.toCLib)).toUInt32

/-- `barg`. -/
def barg {σ : Type} (E : LibEnv σ) (idx : Nat) : LuaM σ UBits := do
  let v ← valueAt idx
  if v.bits E = 0 ∧ v.isnumber E.toCLib = false then throw (.argError idx) else return v.bits E

/-- `lua_isnone`. -/
def luaIsnone {σ : Type} (idx : Nat) : LuaM σ Bool := return (← get).gettop < idx

/-! ### The buffer -/

/-- What a function does with its buffer: the writes in their order, and the
count it passes on. -/
structure Digits where
  writes : List (SBits × UChar)
  n : SBits
deriving DecidableEq

namespace Digits

/-- `(size_t)n`. -/
def length (d : Digits) : UInt32 := d.n.toUInt32

/-- Every write lies inside a buffer of this size, and so does what is read. -/
structure Within (size : Nat) (d : Digits) : Prop where
  writes : ∀ w ∈ d.writes, 0 ≤ w.1.toInt ∧ w.1.toInt < size
  length : d.length.toNat ≤ size

instance (size : Nat) (d : Digits) : Decidable (d.Within size) :=
  decidable_of_iff
    ((d.writes.all fun w => 0 ≤ w.1.toInt ∧ w.1.toInt < size) = true ∧ d.length.toNat ≤ size)
    ⟨fun h => ⟨by simpa using h.1, h.2⟩, fun h => ⟨by simpa using h.writes, h.length⟩⟩

/-- The byte at an index after the writes, if there was one. -/
def byteAt (d : Digits) (i : Nat) : Option UChar :=
  (d.writes.reverse.find? fun w => w.1.toInt = (i : Int)).map (·.2)

/-- The bytes `lua_pushlstring` finds. -/
def text (size : Nat) (d : Digits) : Option Bytes :=
  if d.Within size then (List.range d.length.toNat).mapM d.byteAt else none

end Digits

/-- The byte at an index of a string literal. -/
def charAt (s : String) (i : UBits) : UChar := (lit s).getD i.toNat 0

/-- Below a counter that stays in range the next one is the number before it. -/
theorem toInt_pred {i : SBits} (low : -2 ^ 31 < i.toInt) : (i - 1).toInt = i.toInt - 1 := by
  have high := i.toInt_lt
  rw [Int32.toInt_sub, Int32.toInt_one]
  apply Int.bmod_eq_of_le <;> omega

theorem toInt_nonneg_iff {i : SBits} : 0 ≤ i ↔ 0 ≤ i.toInt := by
  rw [Int32.le_iff_toInt_le, Int32.toInt_zero]

/-- `for (i = n; --i >= 0; ) { buf[i] = digits[b & mask]; b >>= shift; }` -/
def fill (digits : String) (mask shift : UBits) (i : SBits) (b : UBits) : List (SBits × UChar) :=
  if 0 ≤ i - 1 then
    (i - 1, charAt digits (b &&& mask)) :: fill digits mask shift (i - 1) (b >>> shift)
  else []
termination_by if 0 ≤ i - 1 then (i - 1).toInt.toNat + 1 else 0
decreasing_by
  rename_i more
  have pos := toInt_nonneg_iff.mp more
  have next := toInt_pred (i := i - 1) (by omega)
  rw [if_pos more]
  split
  · rename_i more'
    have pos' := toInt_nonneg_iff.mp more'
    omega
  · omega

/-! ### Functions for Lua -/

/-- The body of `bit_tohex` for these arguments. -/
def tohex (b : UBits) (n : SBits) : Digits :=
  let (n, hexdigits) := if n < 0 then (-n, "0123456789ABCDEF") else (n, "0123456789abcdef")
  let n := if 8 < n then 8 else n
  ⟨fill hexdigits 15 4 n b, n⟩

/-- The body of `bit_tobin` for these arguments. -/
def tobin (b : UBits) (n : SBits) : Digits :=
  let n := if 32 < n then 32 else n
  ⟨fill "01" 1 1 n b, n⟩

section Functions

variable {σ ω : Type} (E : LibEnv σ)

/-- `lua_isnone(L, 2) ? default : (SBits)barg(L, 2)`. -/
def digitCount (default : SBits) : LuaM σ SBits := do
  if ← luaIsnone 2 then return default else return (← barg E 2).toInt32

/-- `lua_pushlstring` of a buffer. -/
def luaPushlstring (size : Nat) (d : Digits) : LibM σ ω PUnit := do
  match d.text size with
  | some s => onLua (push (.string s))
  | none => throw .fault

/-- `bit_tohex`. -/
def bitTohex : LibM σ ω Int := do
  let b ← onLua (barg E 1)
  let n ← onLua (digitCount E 2)
  luaPushlstring 8 (tohex b n)
  return 1

/-- `bit_tobin`. -/
def bitTobin : LibM σ ω Int := do
  let b ← onLua (barg E 1)
  let n ← onLua (digitCount E 8)
  luaPushlstring 32 (tobin b n)
  return 1

end Functions

end ProfiLua
