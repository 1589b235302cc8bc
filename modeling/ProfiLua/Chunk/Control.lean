import Mathlib.Tactic.IntervalCases
import ProfiLua.Chunk.RoundTrip

/-!
Where `luaV_execute` (`lvm.c`) goes from an instruction and what the instruction
gets at, and that code which the checker accepts stays within its bounds.

* `Proto.targets`, `Proto.operands`, `Proto.topOpen`: the control flow, the
  operands and the open top of the stack, case by case as in `luaV_execute`.
* `Visited`: the words of the code that the checker takes for instructions.
* `checked_code_safe`: the run of a checked function.

The checker looks for the skip of `OP_LOADBOOL` where its `C` is 1, and
`luaV_execute` skips where it is not 0; and it lets `OP_TAILCALL` ask for a number
of results, which it never has. The code generator writes neither
(`Proto.Emitted`); from others, such code passes and runs over its end
(`runsOver`).
-/

namespace ProfiLua

/-! ### The interpreter -/

/-- What an instruction gets at: a register, counted from `base`, a constant, an
upvalue or a function inside. -/
inductive Operand where
  | register (r : Nat)
  | constant (n : Nat)
  | upvalue (n : Nat)
  | proto (n : Nat)

/-- `RKB` and `RKC`. -/
def Operand.rk (x : Nat) : Operand := if isK x then .constant (indexK x) else .register x

/-- A number of registers in a row. -/
def Operand.registers (first count : Nat) : List Operand :=
  (List.range count).map fun j => .register (first + j)

namespace Proto

/-- The number of upvalues of the function inside that `OP_CLOSURE` makes a
closure of. -/
def closureNups (pt : Proto) (i : Instruction) : Nat :=
  ((pt.p[i.bx]?).map fun f => f.nups.toNat).getD 0

/-- What a pseudo-instruction behind `OP_CLOSURE` gets at. -/
def pseudoOperand (i : Instruction) : Operand :=
  if i.opcode = some .getupval then .upvalue i.b else .register i.b

/-- What the instruction at `pc` gets at. Where an operand 0 means "up to the top",
what lies between is left out. -/
def operands (pt : Proto) (pc : Nat) (op : OpCode) : List Operand :=
  let i := pt.fetch pc
  match op with
  | .move | .unm | .not | .len | .testset => [.register i.a, .register i.b]
  | .loadk | .getglobal | .setglobal => [.register i.a, .constant i.bx]
  | .loadbool | .newtable | .test | .close => [.register i.a]
  | .loadnil => .register i.b :: Operand.registers i.a (i.b + 1 - i.a)
  | .getupval | .setupval => [.register i.a, .upvalue i.b]
  | .gettable => [.register i.a, .register i.b, .rk i.c]
  | .settable => [.register i.a, .rk i.b, .rk i.c]
  | .self => [.register i.a, .register (i.a + 1), .register i.b, .rk i.c]
  | .add | .sub | .mul | .div | .mod | .pow => [.register i.a, .rk i.b, .rk i.c]
  | .concat => .register i.a :: Operand.registers i.b (i.c + 1 - i.b)
  | .jmp => []
  | .eq | .lt | .le => [.rk i.b, .rk i.c]
  | .call => .register i.a :: (Operand.registers i.a i.b ++ Operand.registers i.a (i.c - 1))
  | .tailcall => .register i.a :: Operand.registers i.a i.b
  | .return => Operand.registers i.a (i.b - 1)
  | .forloop => Operand.registers i.a 4
  | .forprep => Operand.registers i.a 3
  | .tforloop => Operand.registers i.a 6 ++ Operand.registers (i.a + 3) i.c
  | .setlist => .register i.a :: Operand.registers (i.a + 1) i.b
  | .closure => .register i.a :: .proto i.bx ::
      (List.range (pt.closureNups i)).map fun j => pseudoOperand (pt.fetch (pc + 1 + j))
  | .vararg => Operand.registers i.a (i.b - 1)

/-- Where `luaV_execute` may go on in this function. A test jumps by the `sBx` of
the next instruction, or skips it. -/
def targets (pt : Proto) (pc : Nat) (op : OpCode) : List Int :=
  let i := pt.fetch pc
  match op with
  | .loadbool => if i.c ≠ 0 then [pc + 2] else [pc + 1]
  | .jmp | .forprep => [pc + 1 + i.sbx]
  | .eq | .lt | .le | .test | .testset | .tforloop =>
      [pc + 1 + (pt.fetch (pc + 1)).sbx + 1, pc + 2]
  | .return => []
  | .forloop => [pc + 1 + i.sbx, pc + 1]
  | .setlist => if i.c = 0 then [pc + 2] else [pc + 1]
  | .closure => [pc + 1 + pt.closureNups i]
  | _ => [pc + 1]

/-- The instruction leaves `top` at the last of an open number of values. -/
def topOpen (pt : Proto) (pc : Nat) (op : OpCode) : Bool :=
  match op with
  | .call => (pt.fetch pc).c = 0
  | .tailcall => true
  | .vararg => (pt.fetch pc).b = 0
  | _ => false

/-- The values of `pc` in a run of the function from its start. -/
inductive Runs (pt : Proto) : Int → Prop
  | start : Runs pt 0
  | step {pc : Nat} {op : OpCode} {t : Int} (runs : Runs pt pc)
      (here : (pt.fetch pc).opcode = some op) (next : t ∈ pt.targets pc op) : Runs pt t

/-- What the code generator keeps to. -/
structure Emitted (pt : Proto) (pc : Nat) (op : OpCode) : Prop where
  skip : op = .loadbool → (pt.fetch pc).c ≤ 1
  results : op = .tailcall → (pt.fetch pc).c = 0

end Proto

/-- An operand is there. Registers may be `extra` above the stack size of the
function. -/
def Operand.Within (pt : Proto) (extra : Nat) : Operand → Prop
  | .register r => r < pt.maxstacksize.toNat + extra
  | .constant n => n < pt.k.length
  | .upvalue n => n < pt.nups.toNat
  | .proto n => n < pt.p.length

/-! ### What the checker has looked at -/

/-- The words that an instruction takes. -/
def Instruction.words (i : Instruction) : Nat := if i.longSetlist then 2 else 1

/-- The words of the code that the checker takes for instructions. -/
inductive Visited (pt : Proto) : Nat → Prop
  | start : Visited pt 0
  | next {pc : Nat} (here : Visited pt pc) (inside : pc < pt.code.length) :
      Visited pt (pc + (pt.fetch pc).words)

/-- Without a register to be found the check does not follow jumps. -/
theorem followJump_noReg (lastpc pc : Nat) (sbx : Int) : followJump lastpc NO_REG pc sbx = pc := by
  simp [followJump]

/-- A register is inside the frame if it is below the size of the stack. -/
theorem checkreg_iff {pt : Proto} {r : Nat} :
    pt.checkreg r = some () ↔ r < pt.maxstacksize.toNat := Proto.check_iff

/-- What passes a check passes what is checked and the rest. -/
theorem check_bind {c : Prop} [Decidable c] {α : Type} {rest : Option α} {r : α} :
    (Proto.check c >>= fun _ => rest) = some r ↔ c ∧ rest = some r := by
  unfold Proto.check
  split_ifs with h <;> simp [h]

section Checks

variable {pt : Proto} {pc : Nat} {op : OpCode}

theorem checkreg_bind {n : Nat} {α : Type} {rest : Option α} {r : α} :
    (pt.checkreg n >>= fun _ => rest) = some r ↔ n < pt.maxstacksize.toNat ∧ rest = some r :=
  check_bind

theorem check_if {c q : Prop} [Decidable c] [Decidable q] {α : Type} {rest : Option α} {r : α} :
    (if c then Proto.check q >>= fun _ => rest else rest) = some r ↔
      (c → q) ∧ rest = some r := by
  by_cases h : c
  · rw [if_pos h, check_bind]
    simp [h]
  · rw [if_neg h]
    simp [h]

theorem checkreg_if {c : Prop} [Decidable c] {n : Nat} {α : Type} {rest : Option α} {r : α} :
    (if c then pt.checkreg n >>= fun _ => rest else rest) = some r ↔
      (c → n < pt.maxstacksize.toNat) ∧ rest = some r :=
  check_if

/-- What `symbexecOp` has checked, case by case. -/
def Proto.OpChecked (pt : Proto) (pc : Nat) (op : OpCode) : Prop :=
  let i := pt.fetch pc
  let stack := pt.maxstacksize.toNat
  match op with
  | .loadbool => i.c = 1 →
      pc + 2 < pt.code.length ∧ (pt.fetch (pc + 1)).longSetlist = false
  | .getupval | .setupval => i.b < pt.nups.toNat
  | .getglobal | .setglobal => (pt.k[i.bx]?).map Constant.isstring = some true
  | .self => i.a + 1 < stack
  | .concat => i.b < i.c
  | .tforloop => 1 ≤ i.c ∧ i.a + 2 + i.c < stack
  | .forloop | .forprep => i.a + 3 < stack
  | .call | .tailcall => (i.b ≠ 0 → i.a + i.b - 1 < stack) ∧
      (i.c = 0 → luaGCheckopenop (pt.fetch (pc + 1)) = true) ∧
      (2 ≤ i.c → i.a + i.c - 2 < stack)
  | .return => 1 < i.b → i.a + i.b - 2 < stack
  | .setlist => (0 < i.b → i.a + i.b < stack) ∧ (i.c = 0 → pc + 2 < pt.code.length)
  | .closure => i.bx < pt.p.length ∧ pc + pt.closureNups i < pt.code.length ∧
      ∀ j < pt.closureNups i, pseudo (pt.fetch (pc + 1 + j))
  | .vararg => (i.b = 0 → luaGCheckopenop (pt.fetch (pc + 1)) = true) ∧ i.a + i.b < stack + 2
  | _ => True

/-- What `symbexec` checks of one instruction, and where it goes on: the word behind
a long `SETLIST` is data and is skipped. -/
theorem symbexecOp_spec {n last : Nat} {r : Nat × Nat}
    (passed : symbexecOp pt n NO_REG pc last op = some r) :
    pt.OpChecked pc op ∧
      r.1 = if op = .setlist ∧ (pt.fetch pc).c = 0 then pc + 1 else pc := by
  cases op <;> simp only [symbexecOp, check_bind, checkreg_bind, followJump_noReg,
    Option.some.injEq, Option.pure_def] at passed
  case loadbool =>
    split_ifs at passed with skip <;> simp only [check_bind, Option.some.injEq] at passed
    · obtain ⟨inside, word, rfl⟩ := passed
      exact ⟨fun _ => ⟨inside, word⟩, rfl⟩
    · subst passed
      exact ⟨fun one => absurd one skip, rfl⟩
  case getupval | setupval | self | concat | forloop | forprep =>
    obtain ⟨known, rfl⟩ := passed
    exact ⟨known, rfl⟩
  case getglobal | setglobal =>
    obtain ⟨known, rfl⟩ := passed
    refine ⟨?_, rfl⟩
    cases found : (pt.k[(pt.fetch pc).bx]?).map Constant.isstring with
    | none => rw [found] at known; cases known
    | some isstring => rw [found] at known; exact found.trans (congrArg some known)
  case tforloop =>
    obtain ⟨results, space, rfl⟩ := passed
    exact ⟨⟨results, space⟩, rfl⟩
  case call | tailcall =>
    rw [checkreg_if] at passed
    obtain ⟨args, passed⟩ := passed
    by_cases opened : (pt.fetch pc).c = 0
    · rw [if_pos opened, check_bind, Option.some.injEq] at passed
      obtain ⟨consumer, rfl⟩ := passed
      exact ⟨⟨args, fun _ => consumer, fun two => by omega⟩, rfl⟩
    · rw [if_neg opened, checkreg_if, Option.some.injEq] at passed
      obtain ⟨space, rfl⟩ := passed
      exact ⟨⟨args, fun zero => absurd zero opened, fun two => space (by omega)⟩, rfl⟩
  case «return» =>
    rw [checkreg_if, Option.some.injEq] at passed
    obtain ⟨space, rfl⟩ := passed
    exact ⟨space, rfl⟩
  case setlist =>
    rw [checkreg_if] at passed
    obtain ⟨space, passed⟩ := passed
    split_ifs at passed with long <;> simp only [check_bind, Option.some.injEq] at passed
    · obtain ⟨inside, rfl⟩ := passed
      exact ⟨⟨space, fun _ => by omega⟩, (if_pos ⟨rfl, long⟩).symm⟩
    · subst passed
      exact ⟨⟨space, fun zero => absurd zero long⟩, (if_neg fun both => long both.2).symm⟩
  case closure =>
    obtain ⟨nup, found, rest⟩ := Option.bind_eq_some_iff.mp passed
    simp only [check_bind, Option.some.injEq] at rest
    obtain ⟨inside, words, rfl⟩ := rest
    have count : pt.closureNups (pt.fetch pc) = nup := by rw [Proto.closureNups, found]; rfl
    obtain ⟨f, held, -⟩ := Option.map_eq_some_iff.mp found
    have known := (List.getElem?_eq_some_iff.mp held).1
    refine ⟨⟨known, ?_⟩, by simp⟩
    rw [count]
    exact ⟨inside, words⟩
  case vararg =>
    obtain ⟨_, passed⟩ := passed
    rw [check_if, check_bind, Option.some.injEq] at passed
    obtain ⟨consumer, space, rfl⟩ := passed
    exact ⟨⟨consumer, by omega⟩, rfl⟩
  all_goals
    cases passed
    exact ⟨trivial, rfl⟩
/-- What `checkArgMode` asks for. -/
def Proto.ArgChecked (pt : Proto) (r : Nat) : OpArgMask → Prop
  | .argN => r = 0
  | .argU => True
  | .argR => (Operand.register r).Within pt 0
  | .argK => (Operand.rk r).Within pt 0

/-- What it checks of an operand, by the mode the instruction has it in. -/
theorem checkArgMode_spec {r : Nat} {mode : OpArgMask}
    (passed : checkArgMode pt r mode = some ()) : pt.ArgChecked r mode := by
  cases mode with
  | argN =>
      have zero := Proto.check_iff.mp passed
      exact zero
  | argU => trivial
  | argR => exact checkreg_iff.mp passed
  | argK =>
      have bounds := Proto.check_iff.mp passed
      unfold Proto.ArgChecked Operand.rk
      split_ifs at bounds ⊢ <;> exact bounds

/-- What `checkOperands` has checked, format by format. -/
def Proto.OperandsChecked (pt : Proto) (pc : Nat) (op : OpCode) : Prop :=
  let i := pt.fetch pc
  let modes := luaPOpmodes op
  match modes.mode with
  | .iABC => pt.ArgChecked i.b modes.b ∧ pt.ArgChecked i.c modes.c
  | .iABx => modes.b = .argK → i.bx < pt.k.length
  | .iAsBx => modes.b = .argR → ∃ dest : Nat, (dest : Int) = pc + 1 + i.sbx ∧
      dest < pt.code.length ∧ setlistsBefore pt dest % 2 = 0

theorem checkOperands_spec (passed : checkOperands pt pc op = some ()) :
    pt.OperandsChecked pc op := by
  cases mode : (luaPOpmodes op).mode <;>
    simp only [checkOperands, Proto.OperandsChecked, mode] at passed ⊢
  case iABC =>
    obtain ⟨_, first, second⟩ := Option.bind_eq_some_iff.mp passed
    exact ⟨checkArgMode_spec first, checkArgMode_spec second⟩
  case iABx => exact Proto.check_iff.mp passed
  case iAsBx =>
    intro jumps
    rw [if_pos jumps, check_bind] at passed
    obtain ⟨⟨low, high⟩, parity⟩ := passed
    obtain ⟨dest, same⟩ := Int.eq_ofNat_of_zero_le low
    rw [same] at high parity
    refine ⟨dest, same.symm, by omega, ?_⟩
    rwa [Proto.check_iff] at parity

/-- The instruction at `pc` has passed the checks. -/
structure Proto.Passed (pt : Proto) (pc : Nat) (op : OpCode) : Prop where
  opcode : (pt.fetch pc).opcode = some op
  a : (pt.fetch pc).a < pt.maxstacksize.toNat
  operands : pt.OperandsChecked pc op
  test : (luaPOpmodes op).t = true →
    pc + 2 < pt.code.length ∧ (pt.fetch (pc + 1)).opcode = some .jmp
  case : pt.OpChecked pc op

/-- A long `SETLIST` is one with 0 for its third operand. -/
theorem longSetlist_iff {i : Instruction} (here : i.opcode = some op) :
    i.longSetlist = true ↔ op = .setlist ∧ i.c = 0 := by
  simp [Instruction.longSetlist, here]

/-- One round of the checker. -/
theorem symbexecStep_spec {n last : Nat} {r : Nat × Nat}
    (passed : symbexecStep pt n NO_REG pc last = some r) :
    (∃ op, pt.Passed pc op) ∧ r.1 + 1 = pc + (pt.fetch pc).words := by
  rw [symbexecStep] at passed
  obtain ⟨op, opcode, passed⟩ := Option.bind_eq_some_iff.mp passed
  rw [checkreg_bind] at passed
  obtain ⟨a, passed⟩ := passed
  obtain ⟨_, operands, passed⟩ := Option.bind_eq_some_iff.mp passed
  obtain ⟨_, test, passed⟩ := Option.bind_eq_some_iff.mp passed
  obtain ⟨case, next⟩ := symbexecOp_spec passed
  refine ⟨⟨op, opcode, a, checkOperands_spec operands, ?_, case⟩, ?_⟩
  · intro tests
    rw [checkTest, if_pos tests, check_bind, Proto.check_iff] at test
    exact test
  · simp only [next, Instruction.words, longSetlist_iff opcode]
    split_ifs <;> omega

/-- What the checker takes for an instruction has passed all checks of an
instruction, since the walk over the code has ended. -/
theorem Visited.passed (checked : luaGCheckcode pt = true) (visited : Visited pt pc)
    (inside : pc < pt.code.length) : ∃ op, pt.Passed pc op := by
  -- the rounds that are left are enough for the code that is left
  have rounds : ∃ rounds last, pt.code.length ≤ pc + rounds ∧
      ∃ r, symbexecFrom pt pt.code.length NO_REG rounds pc last = some r := by
    clear inside
    induction visited with
    | start =>
        obtain ⟨-, r, run, -⟩ := checked_iff.mp checked
        exact ⟨_, _, by omega, r, run⟩
    | @next pc here inside ih =>
        obtain ⟨rounds, last, enough, r, run⟩ := ih
        cases rounds with
        | zero => omega
        | succ rounds =>
            rw [symbexecFrom, if_pos inside] at run
            obtain ⟨⟨pc', last'⟩, step, rest⟩ := Option.bind_eq_some_iff.mp run
            obtain ⟨-, next⟩ := symbexecStep_spec step
            refine ⟨rounds, last', ?_, r, next ▸ rest⟩
            have words : 1 ≤ (pt.fetch pc).words := by
              unfold Instruction.words
              split_ifs <;> omega
            omega
  obtain ⟨rounds, last, enough, r, run⟩ := rounds
  cases rounds with
  | zero => omega
  | succ rounds =>
      rw [symbexecFrom, if_pos inside] at run
      obtain ⟨r', step, -⟩ := Option.bind_eq_some_iff.mp run
      exact (symbexecStep_spec step).1

/-! ### The words that a run comes to -/

/-- Every word is an instruction, or the count of the one before. By induction
on the place, for each is reached from the one before or the one before that. -/
theorem visited_or_count {dest : Nat} (inside : dest < pt.code.length) :
    Visited pt dest ∨
      ∃ pc, dest = pc + 1 ∧ Visited pt pc ∧ (pt.fetch pc).longSetlist = true := by
  induction dest with
  | zero => exact .inl .start
  | succ dest ih =>
      rcases ih (by omega) with visited | ⟨pc, rfl, visited, long⟩
      · have next := visited.next (by omega)
        cases long : (pt.fetch dest).longSetlist with
        | false =>
            rw [Instruction.words, long, if_neg Bool.false_ne_true] at next
            exact .inl next
        | true => exact .inr ⟨dest, rfl, visited, long⟩
      · have next := visited.next (by omega)
        rw [Instruction.words, if_pos long] at next
        exact .inl next

/-- The checker's test of a jump: with an even number of words before `dest`
that look like `OP_SETLIST` with a count, `dest` is an instruction. Looking like
one is not being one, for a count may look like it as well. -/
theorem visited_of_even {dest : Nat} (inside : dest < pt.code.length)
    (even : setlistsBefore pt dest % 2 = 0) : Visited pt dest := by
  induction dest using Nat.strong_induction_on with
  | _ dest ih =>
      cases dest with
      | zero => exact .start
      | succ dest =>
          rw [setlistsBefore] at even
          split_ifs at even with long
          · -- the word before is a count, and the word before that its instruction
            cases dest with
            | zero => simp [setlistsBefore] at even
            | succ pc =>
                rw [setlistsBefore] at even
                split_ifs at even with long'
                have visited := ih pc (by omega) (by omega) (by omega)
                have next := visited.next (by omega)
                rwa [Instruction.words, if_pos long'] at next
          · rcases visited_or_count (by omega : dest < pt.code.length) with
              visited | ⟨pc, rfl, visited, long'⟩
            · have next := visited.next (by omega)
              rwa [Instruction.words, if_neg long] at next
            · have next := visited.next (by omega)
              rwa [Instruction.words, if_pos long'] at next

/-- The next word after an instruction of one word, other than the last, which
is the `OP_RETURN` that every function ends with. -/
theorem Visited.succ (checked : luaGCheckcode pt = true) (visited : Visited pt pc)
    (inside : pc < pt.code.length) (here : (pt.fetch pc).opcode = some op)
    (goesOn : op ≠ .return) (short : (pt.fetch pc).longSetlist = false) :
    Visited pt (pc + 1) ∧ pc + 1 < pt.code.length := by
  have next := visited.next inside
  rw [Instruction.words, short, if_neg Bool.false_ne_true] at next
  refine ⟨next, ?_⟩
  by_contra ended
  obtain ⟨pre, -⟩ := checked_iff.mp checked
  have last := pre.last.2
  rw [show pt.code.length - 1 = pc by omega, here] at last
  exact goesOn (Option.some.inj last)

/-- The destination of a checked jump is an instruction inside the code. -/
theorem Proto.Passed.jump (passed : pt.Passed pc op) (mode : (luaPOpmodes op).mode = .iAsBx)
    (jumps : (luaPOpmodes op).b = .argR) :
    ∃ dest : Nat, (dest : Int) = pc + 1 + (pt.fetch pc).sbx ∧ dest < pt.code.length ∧
      Visited pt dest := by
  have operands := passed.operands
  simp only [Proto.OperandsChecked, mode] at operands
  obtain ⟨dest, same, inside, even⟩ := operands jumps
  exact ⟨dest, same, inside, visited_of_even inside even⟩

/-- The pseudo-instructions behind `OP_CLOSURE` are checked like others, though
they are never executed. -/
theorem visited_pseudo (checked : luaGCheckcode pt = true) (visited : Visited pt pc)
    (inside : pc < pt.code.length) (here : (pt.fetch pc).opcode = some .closure) {n : Nat}
    (words : ∀ j < n, pseudo (pt.fetch (pc + 1 + j))) :
    ∀ j ≤ n, Visited pt (pc + 1 + j) ∧ pc + 1 + j < pt.code.length := by
  have short : ∀ {q : Nat} {op : OpCode}, (pt.fetch q).opcode = some op → op ≠ .setlist →
      (pt.fetch q).longSetlist = false := by
    intro q op at' other
    rw [← Bool.not_eq_true, longSetlist_iff at']
    exact fun both => other both.1
  intro j le
  induction j with
  | zero => exact visited.succ checked inside here (by decide) (short here (by decide))
  | succ j ih =>
      obtain ⟨before, inside'⟩ := ih (by omega)
      have word := words j (by omega)
      simp only [pseudo, Bool.or_eq_true, decide_eq_true_eq] at word
      rcases word with word | word
      · exact before.succ checked inside' word (by decide) (short word (by decide))
      · exact before.succ checked inside' word (by decide) (short word (by decide))

/-- Where `luaV_execute` goes on is an instruction. By the opcode: most go on
with the next word, and the others are what the checker has cases for. -/
theorem targets_visited (checked : luaGCheckcode pt = true) (visited : Visited pt pc)
    (inside : pc < pt.code.length) (passed : pt.Passed pc op) (emitted : pt.Emitted pc op) :
    ∀ t ∈ pt.targets pc op, ∃ q : Nat, t = q ∧ Visited pt q ∧ q < pt.code.length := by
  have short : op ≠ .setlist → (pt.fetch pc).longSetlist = false := by
    intro other
    rw [← Bool.not_eq_true, longSetlist_iff passed.opcode]
    exact fun both => other both.1
  have succ := visited.succ checked inside passed.opcode
  have case := passed.case
  intro t mem
  cases op
  case loadbool =>
    obtain ⟨next, inside'⟩ := succ (by decide) (short (by decide))
    -- the checker does not look at `C`, so that it skips one instruction is what the compiler
    -- promises
    have skip := emitted.skip rfl
    simp only [Proto.targets] at mem
    split_ifs at mem with zero
    · obtain rfl := List.mem_singleton.mp mem
      obtain ⟨inside'', word⟩ := case (by omega)
      have after := next.next inside'
      rw [Instruction.words, word, if_neg Bool.false_ne_true] at after
      exact ⟨pc + 2, rfl, after, inside''⟩
    · obtain rfl := List.mem_singleton.mp mem
      exact ⟨pc + 1, rfl, next, inside'⟩
  case jmp | forprep =>
    obtain rfl := List.mem_singleton.mp mem
    obtain ⟨dest, same, inside', there⟩ := passed.jump rfl rfl
    exact ⟨dest, same.symm, there, inside'⟩
  case eq | lt | le | test | testset | tforloop =>
    obtain ⟨next, inside'⟩ := succ (by decide) (short (by decide))
    -- a test is followed by its jump, and goes on behind it or where it leads
    obtain ⟨inside'', jump⟩ := passed.test rfl
    obtain ⟨op', passed'⟩ := next.passed checked inside'
    obtain rfl : .jmp = op' := Option.some.inj (jump.symm.trans passed'.opcode)
    simp only [Proto.targets, List.mem_cons, List.not_mem_nil, or_false] at mem
    rcases mem with rfl | rfl
    · obtain ⟨dest, same, inside', there⟩ := passed'.jump rfl rfl
      refine ⟨dest, ?_, there, inside'⟩
      push_cast at same
      omega
    · have word : (pt.fetch (pc + 1)).longSetlist = false := by
        rw [← Bool.not_eq_true, longSetlist_iff jump]
        simp
      have after := next.next inside'
      rw [Instruction.words, word, if_neg Bool.false_ne_true] at after
      exact ⟨pc + 2, rfl, after, inside''⟩
  case «return» => exact absurd mem List.not_mem_nil
  case forloop =>
    obtain ⟨next, inside'⟩ := succ (by decide) (short (by decide))
    obtain ⟨dest, same, inside'', there⟩ := passed.jump rfl rfl
    simp only [Proto.targets, List.mem_cons, List.not_mem_nil, or_false] at mem
    rcases mem with rfl | rfl
    · exact ⟨dest, same.symm, there, inside''⟩
    · exact ⟨pc + 1, rfl, next, inside'⟩
  case setlist =>
    simp only [Proto.targets] at mem
    split_ifs at mem with long
    · obtain rfl := List.mem_singleton.mp mem
      have after := visited.next inside
      rw [Instruction.words, if_pos ((longSetlist_iff passed.opcode).mpr ⟨rfl, long⟩)] at after
      exact ⟨pc + 2, rfl, after, case.2 long⟩
    · obtain rfl := List.mem_singleton.mp mem
      have word : (pt.fetch pc).longSetlist = false := by
        rw [← Bool.not_eq_true, longSetlist_iff passed.opcode]
        exact fun both => long both.2
      obtain ⟨next, inside'⟩ := succ (by decide) word
      exact ⟨pc + 1, rfl, next, inside'⟩
  case closure =>
    obtain rfl := List.mem_singleton.mp mem
    obtain ⟨-, -, words⟩ := case
    obtain ⟨there, inside'⟩ :=
      visited_pseudo checked visited inside passed.opcode words _ (le_refl _)
    exact ⟨_, by push_cast; rfl, there, inside'⟩
  all_goals
    obtain rfl := List.mem_singleton.mp mem
    obtain ⟨next, inside'⟩ := succ (by decide) (short (by decide))
    exact ⟨pc + 1, rfl, next, inside'⟩

/-- Whoever looks at `pc` after the checks is at an instruction. By induction on
the run. -/
theorem runs_visited (checked : luaGCheckcode pt = true)
    (emitted : ∀ (pc : Nat) (op : OpCode), pt.Runs pc → (pt.fetch pc).opcode = some op →
      pt.Emitted pc op) {t : Int} (runs : pt.Runs t) :
    ∃ pc : Nat, t = pc ∧ Visited pt pc ∧ pc < pt.code.length := by
  induction runs with
  | start =>
      obtain ⟨pre, -⟩ := checked_iff.mp checked
      exact ⟨0, rfl, .start, pre.last.1⟩
  | @step pc op t runs here next ih =>
      obtain ⟨_, same, visited, inside⟩ := ih
      obtain rfl := Int.ofNat.inj same
      obtain ⟨op', passed⟩ := visited.passed checked inside
      obtain rfl : op = op' := Option.some.inj (here.symm.trans passed.opcode)
      exact targets_visited checked visited inside passed (emitted pc op runs here) t next

/-! ### What an instruction gets at -/

/-- A stretch of registers is inside if its end is. -/
theorem registers_within {first count extra : Nat}
    (fits : first + count ≤ pt.maxstacksize.toNat + extra) :
    ∀ o ∈ Operand.registers first count, o.Within pt extra := by
  intro o mem
  obtain ⟨j, below, rfl⟩ := List.mem_map.mp mem
  rw [List.mem_range] at below
  show first + j < pt.maxstacksize.toNat + extra
  omega

/-- The pseudo-instructions of `OP_CLOSURE` name upvalues and registers there are. -/
theorem pseudo_within (checked : luaGCheckcode pt = true) {q : Nat} (visited : Visited pt q)
    (inside : q < pt.code.length) (word : pseudo (pt.fetch q) = true) :
    (Proto.pseudoOperand (pt.fetch q)).Within pt 0 := by
  obtain ⟨op, passed⟩ := visited.passed checked inside
  simp only [pseudo, passed.opcode, Bool.or_eq_true, decide_eq_true_eq, Option.some.injEq] at word
  rcases word with rfl | rfl
  · rw [Proto.pseudoOperand, if_pos passed.opcode]
    exact passed.case
  · have other : (pt.fetch q).opcode ≠ some .getupval := by
      rw [passed.opcode]
      decide
    rw [Proto.pseudoOperand, if_neg other]
    exact passed.operands.1

/-- Above the stack size of the function `OP_TFORLOOP` alone gets at registers: two,
where it puts the arguments of the call. -/
def extraRegisters (op : OpCode) : Nat := if op = .tforloop then 2 else 0

/-- All that an instruction of a checked function can touch is there: registers,
constants, upvalues and functions. By the opcode; of an operand in a field of
its own the mode is checked, and of a stretch of registers its end. -/
theorem operands_within (checked : luaGCheckcode pt = true) (visited : Visited pt pc)
    (inside : pc < pt.code.length) (passed : pt.Passed pc op) :
    ∀ o ∈ pt.operands pc op, o.Within pt (extraRegisters op) := by
  have a : (Operand.register (pt.fetch pc).a).Within pt 0 := passed.a
  have operands := passed.operands
  have case := passed.case
  cases op
  case move | unm | not | len | testset =>
    obtain ⟨b, -⟩ := operands
    exact List.forall_mem_cons.mpr ⟨a, List.forall_mem_singleton.mpr b⟩
  case loadk | getglobal | setglobal =>
    exact List.forall_mem_cons.mpr ⟨a, List.forall_mem_singleton.mpr (operands rfl)⟩
  case loadbool | newtable | test | close => exact List.forall_mem_singleton.mpr a
  case loadnil =>
    obtain ⟨b, -⟩ := operands
    have bound : (pt.fetch pc).b < pt.maxstacksize.toNat := b
    exact List.forall_mem_cons.mpr ⟨b, registers_within (by have := passed.a; omega)⟩
  case getupval | setupval =>
    exact List.forall_mem_cons.mpr ⟨a, List.forall_mem_singleton.mpr case⟩
  case gettable =>
    obtain ⟨b, c⟩ := operands
    exact List.forall_mem_cons.mpr ⟨a, List.forall_mem_cons.mpr ⟨b,
      List.forall_mem_singleton.mpr c⟩⟩
  case settable | add | sub | mul | div | mod | pow =>
    obtain ⟨b, c⟩ := operands
    exact List.forall_mem_cons.mpr ⟨a, List.forall_mem_cons.mpr ⟨b,
      List.forall_mem_singleton.mpr c⟩⟩
  case self =>
    obtain ⟨b, c⟩ := operands
    exact List.forall_mem_cons.mpr ⟨a, List.forall_mem_cons.mpr ⟨case,
      List.forall_mem_cons.mpr ⟨b, List.forall_mem_singleton.mpr c⟩⟩⟩
  case concat =>
    obtain ⟨b, c⟩ := operands
    have bound : (pt.fetch pc).c < pt.maxstacksize.toNat := c
    have two : (pt.fetch pc).b < (pt.fetch pc).c := case
    exact List.forall_mem_cons.mpr ⟨a, registers_within (by omega)⟩
  case jmp =>
    intro o mem
    cases mem
  case eq | lt | le =>
    obtain ⟨b, c⟩ := operands
    exact List.forall_mem_cons.mpr ⟨b, List.forall_mem_singleton.mpr c⟩
  case call =>
    obtain ⟨args, -, results⟩ := case
    have := passed.a
    refine List.forall_mem_cons.mpr ⟨a, List.forall_mem_append.mpr ⟨?_, ?_⟩⟩
    · exact registers_within (by by_cases none : (pt.fetch pc).b = 0 <;> grind)
    · exact registers_within (by by_cases some : 2 ≤ (pt.fetch pc).c <;> grind)
  case tailcall =>
    obtain ⟨args, -, -⟩ := case
    have := passed.a
    exact List.forall_mem_cons.mpr ⟨a, registers_within (by grind)⟩
  case «return» =>
    have := passed.a
    have values : 1 < (pt.fetch pc).b → _ := case
    exact registers_within (by grind)
  case forloop | forprep =>
    have space : (pt.fetch pc).a + 3 < pt.maxstacksize.toNat := case
    exact registers_within (by omega)
  case tforloop =>
    obtain ⟨some, space⟩ := case
    refine List.forall_mem_append.mpr ⟨registers_within ?_, registers_within ?_⟩
    · show (pt.fetch pc).a + 6 ≤ pt.maxstacksize.toNat + 2
      omega
    · show (pt.fetch pc).a + 3 + (pt.fetch pc).c ≤ pt.maxstacksize.toNat + 2
      omega
  case setlist =>
    obtain ⟨space, -⟩ := case
    have := passed.a
    exact List.forall_mem_cons.mpr ⟨a, registers_within (by grind)⟩
  case closure =>
    obtain ⟨known, -, words⟩ := case
    refine List.forall_mem_cons.mpr ⟨a, List.forall_mem_cons.mpr ⟨known, ?_⟩⟩
    intro o mem
    obtain ⟨j, below, rfl⟩ := List.mem_map.mp mem
    rw [List.mem_range] at below
    obtain ⟨there, inside'⟩ :=
      visited_pseudo checked visited inside passed.opcode words j below.le
    exact pseudo_within checked there inside' (words j below)
  case vararg =>
    obtain ⟨-, space⟩ := case
    exact registers_within (by show _ ≤ pt.maxstacksize.toNat + 0; have := passed.a; omega)

/-- After an instruction that leaves the top open comes one that asks for it.
These are three, and the checker looks at the word behind each. -/
theorem topOpen_consumed (passed : pt.Passed pc op) (emitted : pt.Emitted pc op)
    (opened : pt.topOpen pc op = true) :
    ∀ t ∈ pt.targets pc op, luaGCheckopenop (pt.fetch t.toNat) = true := by
  have case := passed.case
  intro t mem
  cases op
  case call =>
    obtain rfl := List.mem_singleton.mp mem
    exact case.2.1 (by simpa [Proto.topOpen] using opened)
  case tailcall =>
    obtain rfl := List.mem_singleton.mp mem
    exact case.2.1 (emitted.results rfl)
  case vararg =>
    obtain rfl := List.mem_singleton.mp mem
    exact case.1 (by simpa [Proto.topOpen] using opened)
  all_goals cases opened

/-! ### Checked functions -/

/-- A run of a function that `luaG_checkcode` accepts never leaves its code; every
instruction it comes to has an opcode; the registers, constants, upvalues and inner
functions it gets at are there; a name of a global is a string; and after an
instruction that leaves the top of the stack open comes one that uses it. -/
theorem checked_code_safe (checked : luaGCheckcode pt = true)
    (emitted : ∀ (pc : Nat) (op : OpCode), pt.Runs pc → (pt.fetch pc).opcode = some op →
      pt.Emitted pc op) {t : Int} (runs : pt.Runs t) :
    ∃ (pc : Nat) (op : OpCode), t = pc ∧ pc < pt.code.length ∧ (pt.fetch pc).opcode = some op ∧
      (∀ o ∈ pt.operands pc op, o.Within pt (extraRegisters op)) ∧
      (op = .getglobal ∨ op = .setglobal →
        (pt.k[(pt.fetch pc).bx]?).map Constant.isstring = some true) ∧
      (pt.topOpen pc op = true →
        ∀ t' ∈ pt.targets pc op, luaGCheckopenop (pt.fetch t'.toNat) = true) := by
  obtain ⟨pc, rfl, visited, inside⟩ := runs_visited checked emitted runs
  obtain ⟨op, passed⟩ := visited.passed checked inside
  refine ⟨pc, op, rfl, inside, passed.opcode, operands_within checked visited inside passed, ?_,
    topOpen_consumed passed (emitted pc op runs passed.opcode)⟩
  rintro (rfl | rfl)
  · exact passed.case
  · exact passed.case

end Checks

/-- `for i = 1, 2 do end`. -/
def loopFunction : Proto :=
  { nestedFunction with
    maxstacksize := 4
    code := [0x00000001, 0x00004041, 0x00000081, 0x7FFFC020, 0x7FFF801F, 0x0080001E]
    k := [.number 0x3FF0000000000000, .number 0x4000000000000000]
    p := []
    lineinfo := [] }

/-- The last jump of a loop over two numbers, with the four registers it keeps
its state in. -/
theorem checked_code_safe_loop :
    loopFunction.Runs 4 ∧ ∃ op, (loopFunction.fetch 4).opcode = some op ∧
      ∀ o ∈ loopFunction.operands 4 op, o.Within loopFunction (extraRegisters op) := by
  have runs : loopFunction.Runs 4 := by
    have zero : loopFunction.Runs ((0 : Nat) : Int) := .start
    have one : loopFunction.Runs ((1 : Nat) : Int) := .step zero rfl (by decide)
    have two : loopFunction.Runs ((2 : Nat) : Int) := .step one rfl (by decide)
    have three : loopFunction.Runs ((3 : Nat) : Int) := .step two rfl (by decide)
    exact .step three rfl (by decide)
  have emitted : ∀ (pc : Nat) (op : OpCode), loopFunction.Runs pc →
      (loopFunction.fetch pc).opcode = some op → loopFunction.Emitted pc op := by
    intro pc op _ here
    have known : op ≠ .loadbool ∧ op ≠ .tailcall := by
      by_cases inside : pc < 6
      · interval_cases pc <;> obtain rfl := Option.some.inj here <;> decide
      · have past : loopFunction.fetch pc = 0 := by
          have none : loopFunction.code[pc]? = none :=
            List.getElem?_eq_none (not_lt.mp inside : loopFunction.code.length ≤ pc)
          rw [Proto.fetch, List.getD_eq_getElem?_getD, none]
          rfl
        rw [past] at here
        obtain rfl := Option.some.inj here
        decide
    exact ⟨fun loadbool => absurd loadbool known.1, fun tailcall => absurd tailcall known.2⟩
  obtain ⟨pc, op, same, -, here, within, -⟩ :=
    checked_code_safe (by decide : luaGCheckcode loopFunction = true) emitted runs
  obtain rfl : 4 = pc := Int.ofNat.inj same
  exact ⟨runs, op, here, within⟩

/-- A skip of 2 by `OP_LOADBOOL`, which the checker does not look at. -/
def runsOver : Proto := { nestedFunction with code := [0x00008002, 0x0080001E] }

example : luaGCheckcode runsOver = true ∧ runsOver.Runs 2 ∧ runsOver.code.length = 2 := by
  have zero : runsOver.Runs ((0 : Nat) : Int) := .start
  exact ⟨by decide, .step zero rfl (by decide), rfl⟩

end ProfiLua
