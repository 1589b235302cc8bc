import Mathlib.Algebra.Group.Nat.Defs
import ProfiLua.Lua.Value

/-!
Compiled functions (`lobject.h`) and their instructions (`lopcodes.h`,
`lopcodes.c`).

An `Instruction` has its opcode in the low six bits and its operands above them:
`A` (8 bits), `C` and `B` (9 bits each), or `Bx` in the place of `C` and `B`.
-/

namespace ProfiLua

/-- `Instruction`. -/
abbrev Instruction := UInt32

/-- `OpCode`. -/
inductive OpCode where
  | move | loadk | loadbool | loadnil | getupval | getglobal | gettable | setglobal | setupval
  | settable | newtable | self | add | sub | mul | div | mod | pow | unm | not | len | concat
  | jmp | eq | lt | le | test | testset | call | tailcall | «return» | forloop | forprep
  | tforloop | setlist | close | closure | vararg
deriving DecidableEq

namespace OpCode

/-- The opcodes in the order of their numbers. -/
def all : List OpCode :=
  [move, loadk, loadbool, loadnil, getupval, getglobal, gettable, setglobal, setupval,
    settable, newtable, self, add, sub, mul, div, mod, pow, unm, not, len, concat,
    jmp, eq, lt, le, test, testset, call, tailcall, «return», forloop, forprep,
    tforloop, setlist, close, closure, vararg]

end OpCode

/-- `OpMode`. -/
inductive OpMode where
  | iABC | iABx | iAsBx
deriving DecidableEq

/-- `OpArgMask`. -/
inductive OpArgMask where
  /-- argument is not used -/
  | argN
  /-- argument is used -/
  | argU
  /-- argument is a register or a jump offset -/
  | argR
  /-- argument is a constant or register/constant -/
  | argK
deriving DecidableEq

/-- One row of `luaP_opmodes`: operator is a test, instruction sets register `A`,
mode of `B`, mode of `C`, format. -/
structure OpModes where
  t : Bool
  a : Bool
  b : OpArgMask
  c : OpArgMask
  mode : OpMode

/-- `luaP_opmodes`. -/
def luaPOpmodes : OpCode → OpModes
  | .move => ⟨false, true, .argR, .argN, .iABC⟩
  | .loadk => ⟨false, true, .argK, .argN, .iABx⟩
  | .loadbool => ⟨false, true, .argU, .argU, .iABC⟩
  | .loadnil => ⟨false, true, .argR, .argN, .iABC⟩
  | .getupval => ⟨false, true, .argU, .argN, .iABC⟩
  | .getglobal => ⟨false, true, .argK, .argN, .iABx⟩
  | .gettable => ⟨false, true, .argR, .argK, .iABC⟩
  | .setglobal => ⟨false, false, .argK, .argN, .iABx⟩
  | .setupval => ⟨false, false, .argU, .argN, .iABC⟩
  | .settable => ⟨false, false, .argK, .argK, .iABC⟩
  | .newtable => ⟨false, true, .argU, .argU, .iABC⟩
  | .self => ⟨false, true, .argR, .argK, .iABC⟩
  | .add | .sub | .mul | .div | .mod | .pow => ⟨false, true, .argK, .argK, .iABC⟩
  | .unm | .not | .len => ⟨false, true, .argR, .argN, .iABC⟩
  | .concat => ⟨false, true, .argR, .argR, .iABC⟩
  | .jmp => ⟨false, false, .argR, .argN, .iAsBx⟩
  | .eq | .lt | .le => ⟨true, false, .argK, .argK, .iABC⟩
  | .test => ⟨true, true, .argR, .argU, .iABC⟩
  | .testset => ⟨true, true, .argR, .argU, .iABC⟩
  | .call => ⟨false, true, .argU, .argU, .iABC⟩
  | .tailcall => ⟨false, true, .argU, .argU, .iABC⟩
  | .return => ⟨false, false, .argU, .argN, .iABC⟩
  | .forloop => ⟨false, true, .argR, .argN, .iAsBx⟩
  | .forprep => ⟨false, true, .argR, .argN, .iAsBx⟩
  | .tforloop => ⟨true, false, .argN, .argU, .iABC⟩
  | .setlist => ⟨false, false, .argU, .argU, .iABC⟩
  | .close => ⟨false, false, .argN, .argN, .iABC⟩
  | .closure => ⟨false, true, .argU, .argN, .iABx⟩
  | .vararg => ⟨false, true, .argU, .argN, .iABC⟩

namespace Instruction

/-- `GET_OPCODE`; none when the number is not below `NUM_OPCODES`. -/
def opcode (i : Instruction) : Option OpCode := OpCode.all[i.toNat % 2 ^ 6]?

/-- `GETARG_A`. -/
def a (i : Instruction) : Nat := i.toNat / 2 ^ 6 % 2 ^ 8

/-- `GETARG_C`. -/
def c (i : Instruction) : Nat := i.toNat / 2 ^ 14 % 2 ^ 9

/-- `GETARG_B`. -/
def b (i : Instruction) : Nat := i.toNat / 2 ^ 23 % 2 ^ 9

/-- `GETARG_Bx`. -/
def bx (i : Instruction) : Nat := i.toNat / 2 ^ 14 % 2 ^ 18

/-- `MAXARG_sBx`. -/
def maxargSBx : Nat := (2 ^ 18 - 1) / 2

/-- `GETARG_sBx`. -/
def sbx (i : Instruction) : Int := i.bx - maxargSBx

end Instruction

/-- `ISK`: the bit `BITRK` says that an operand is a constant. -/
def isK (x : Nat) : Bool := x / 2 ^ 8 % 2 = 1

/-- `INDEXK`. -/
def indexK (r : Nat) : Nat := if isK r then r - 2 ^ 8 else r

/-- An `int` that is not negative. -/
abbrev NonNeg := Fin (2 ^ 31)

/-- A constant of a function. A number is the image of the `double` in memory,
which is what a chunk stores. A string pointer that a chunk gives no string for is
`NULL`. -/
inductive Constant where
  | nil
  | boolean (b : Bool)
  | number (image : UInt64)
  | string (s : Option Bytes)
deriving DecidableEq

/-- `ttisstring` of a constant. -/
def Constant.isstring : Constant → Bool
  | .string _ => true
  | _ => false

/-- `LocVar`. -/
structure LocVar where
  varname : Option Bytes
  startpc : NonNeg
  endpc : NonNeg
deriving DecidableEq

/-- `Proto`. A vector and its size (`code` and `sizecode`) are one list. -/
structure Proto where
  source : Option Bytes
  linedefined : NonNeg
  lastlinedefined : NonNeg
  nups : UChar
  numparams : UChar
  isVararg : UChar
  maxstacksize : UChar
  code : List Instruction
  k : List Constant
  p : List Proto
  lineinfo : List UInt32
  locvars : List LocVar
  upvalues : List (Option Bytes)

end ProfiLua
