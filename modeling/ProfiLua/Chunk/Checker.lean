import ProfiLua.Chunk.Proto

/-!
The checker of compiled functions (`ldebug.c`): `precheck`, `symbexec`,
`luaG_checkcode`.

`none` is the `return 0` of the macro `check`. `symbexec` runs over the code once:
for the checker with no register to trace (`NO_REG`), and then every instruction
but the counts of `OP_SETLIST` is looked at; to name a value, following the last
change of a register.
-/

namespace ProfiLua

/-- `MAXSTACK`. -/
def MAXSTACK : Nat := 250

/-- `NO_REG`, the largest value of the operand `A`. -/
def NO_REG : Nat := 255

/-- The macro `check`. -/
def Proto.check (c : Prop) [Decidable c] : Option Unit := if c then some () else none

namespace Proto

/-- `code[pc]`. -/
def fetch (pt : Proto) (pc : Nat) : Instruction := pt.code.getD pc 0

/-- `VARARG_HASARG`. -/
def hasarg (pt : Proto) : Bool := pt.isVararg.toNat % 2 = 1

/-- `VARARG_ISVARARG`. -/
def isvararg (pt : Proto) : Bool := pt.isVararg.toNat / 2 % 2 = 1

/-- `VARARG_NEEDSARG`. -/
def needsarg (pt : Proto) : Bool := pt.isVararg.toNat / 4 % 2 = 1

/-- The macro `checkreg`. -/
def checkreg (pt : Proto) (reg : Nat) : Option Unit := Proto.check (reg < pt.maxstacksize.toNat)

end Proto

/-- `precheck`. -/
def precheck (pt : Proto) : Option Unit := do
  Proto.check (pt.maxstacksize.toNat ≤ MAXSTACK)
  Proto.check (pt.numparams.toNat + pt.hasarg.toNat ≤ pt.maxstacksize.toNat)
  Proto.check (pt.needsarg = false ∨ pt.hasarg = true)
  Proto.check (pt.upvalues.length ≤ pt.nups.toNat)
  Proto.check (pt.lineinfo.length = pt.code.length ∨ pt.lineinfo.length = 0)
  Proto.check (0 < pt.code.length ∧ (pt.fetch (pt.code.length - 1)).opcode = some .return)

/-- `luaG_checkopenop`. -/
def luaGCheckopenop (i : Instruction) : Bool :=
  match i.opcode with
  | some .call | some .tailcall | some .return | some .setlist => i.b = 0
  | _ => false

/-- `checkArgMode`. -/
def checkArgMode (pt : Proto) (r : Nat) : OpArgMask → Option Unit
  | .argN => Proto.check (r = 0)
  | .argU => some ()
  | .argR => pt.checkreg r
  | .argK => Proto.check (if isK r then indexK r < pt.k.length else r < pt.maxstacksize.toNat)

/-- `OP_SETLIST` whose count is the next word of the code. -/
def Instruction.longSetlist (i : Instruction) : Bool := i.opcode = some .setlist && i.c = 0

/-- The number of words before `dest`, going back, that look like `OP_SETLIST` with
a count behind it. -/
def setlistsBefore (pt : Proto) : Nat → Nat
  | 0 => 0
  | dest + 1 => if (pt.fetch dest).longSetlist then setlistsBefore pt dest + 1 else 0

/-- The checks of the operands that the format of the instruction asks for. -/
def checkOperands (pt : Proto) (pc : Nat) (op : OpCode) : Option Unit :=
  let i := pt.fetch pc
  let modes := luaPOpmodes op
  match modes.mode with
  | .iABC => do
      checkArgMode pt i.b modes.b
      checkArgMode pt i.c modes.c
  | .iABx => Proto.check (modes.b = .argK → i.bx < pt.k.length)
  | .iAsBx =>
      if modes.b = .argR then do
        let dest : Int := pc + 1 + i.sbx
        Proto.check (0 ≤ dest ∧ dest < pt.code.length)
        -- it does not jump to a setlist count: if the number is odd, the word
        -- before `dest` is a setlist
        Proto.check (setlistsBefore pt dest.toNat % 2 = 0)
      else some ()

/-- The skip of a test. -/
def checkTest (pt : Proto) (pc : Nat) (op : OpCode) : Option Unit :=
  if (luaPOpmodes op).t then do
    Proto.check (pc + 2 < pt.code.length)
    Proto.check ((pt.fetch (pc + 1)).opcode = some .jmp)
  else some ()

/-- A jump that a trace follows: forward, and not past `lastpc`. -/
def followJump (lastpc reg pc : Nat) (sbx : Int) : Nat :=
  let dest : Int := pc + 1 + sbx
  if reg ≠ NO_REG ∧ pc < dest ∧ dest ≤ lastpc then (pc + sbx).toNat else pc

/-- The pseudo-instructions behind `OP_CLOSURE`, one for each upvalue. -/
def pseudo (i : Instruction) : Bool := i.opcode = some .getupval || i.opcode = some .move

/-- The cases of `symbexec`: the next value of `pc` (before `pc++`), and of `last`. -/
def symbexecOp (pt : Proto) (lastpc reg pc last : Nat) (op : OpCode) : Option (Nat × Nat) :=
  let i := pt.fetch pc
  match op with
  | .loadbool => do
      if i.c = 1 then
        Proto.check (pc + 2 < pt.code.length)
        Proto.check ((pt.fetch (pc + 1)).longSetlist = false)
      return (pc, last)
  | .loadnil => some (pc, if i.a ≤ reg ∧ reg ≤ i.b then pc else last)
  | .getupval | .setupval => do
      Proto.check (i.b < pt.nups.toNat)
      return (pc, last)
  | .getglobal | .setglobal => do
      Proto.check (((pt.k[i.bx]?).map Constant.isstring).getD false)
      return (pc, last)
  | .self => do
      pt.checkreg (i.a + 1)
      return (pc, if reg = i.a + 1 then pc else last)
  | .concat => do
      Proto.check (i.b < i.c)
      return (pc, last)
  | .tforloop => do
      Proto.check (1 ≤ i.c)
      pt.checkreg (i.a + 2 + i.c)
      return (pc, if i.a + 2 ≤ reg then pc else last)
  | .forloop | .forprep => do
      pt.checkreg (i.a + 3)
      return (followJump lastpc reg pc i.sbx, last)
  | .jmp => some (followJump lastpc reg pc i.sbx, last)
  | .call | .tailcall => do
      if i.b ≠ 0 then pt.checkreg (i.a + i.b - 1)
      if i.c = 0 then
        Proto.check (luaGCheckopenop (pt.fetch (pc + 1)) = true)
      else if i.c ≠ 1 then
        pt.checkreg (i.a + i.c - 2)
      return (pc, if i.a ≤ reg then pc else last)
  | .return => do
      if 1 < i.b then pt.checkreg (i.a + i.b - 2)
      return (pc, last)
  | .setlist => do
      if 0 < i.b then pt.checkreg (i.a + i.b)
      if i.c = 0 then
        Proto.check (pc + 1 < pt.code.length - 1)
        return (pc + 1, last)
      else return (pc, last)
  | .closure => do
      let nup ← (pt.p[i.bx]?).map fun f => f.nups.toNat
      Proto.check (pc + nup < pt.code.length)
      Proto.check (∀ j < nup, pseudo (pt.fetch (pc + 1 + j)))
      return (if reg ≠ NO_REG then pc + nup else pc, last)
  | .vararg => do
      Proto.check (pt.isvararg = true ∧ pt.needsarg = false)
      if i.b = 0 then Proto.check (luaGCheckopenop (pt.fetch (pc + 1)) = true)
      Proto.check ((i.a : Int) + (i.b - 1) - 1 < pt.maxstacksize.toNat)
      return (pc, last)
  | _ => some (pc, last)

/-- One round of the loop of `symbexec`. -/
def symbexecStep (pt : Proto) (lastpc reg pc last : Nat) : Option (Nat × Nat) := do
  let i := pt.fetch pc
  let op ← i.opcode
  pt.checkreg i.a
  checkOperands pt pc op
  let last := if (luaPOpmodes op).a ∧ i.a = reg then pc else last
  checkTest pt pc op
  symbexecOp pt lastpc reg pc last op

/-- The loop of `symbexec`: every round moves `pc` forward, so `lastpc` rounds are
enough. -/
def symbexecFrom (pt : Proto) (lastpc reg : Nat) : Nat → Nat → Nat → Option Nat
  | 0, _, last => some last
  | rounds + 1, pc, last =>
      if pc < lastpc then do
        let (pc, last) ← symbexecStep pt lastpc reg pc last
        symbexecFrom pt lastpc reg rounds (pc + 1) last
      else some last

/-- `symbexec`. -/
def symbexec (pt : Proto) (lastpc reg : Nat) : Option Instruction := do
  precheck pt
  let last ← symbexecFrom pt lastpc reg lastpc 0 (pt.code.length - 1)
  return pt.fetch last

/-- `luaG_checkcode`. -/
def luaGCheckcode (pt : Proto) : Bool := (symbexec pt pt.code.length NO_REG).getD 0 ≠ 0

end ProfiLua
