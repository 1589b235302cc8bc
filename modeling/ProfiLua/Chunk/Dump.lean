import ProfiLua.Chunk.Checker
import ProfiLua.Program.Stream

/-!
Saving and loading precompiled chunks (`ldump.c`, `lundump.c`) and the buffered
streams they are loaded from (`lzio.c`), for the 32-bit build: `int`, `size_t` and
`Instruction` have 4 bytes, `lua_Number` has 8, and the lowest comes first.

Memory is never short; a vector or a string that no block can hold is refused.
-/

namespace ProfiLua

open Program (Supply Decoder Sink Output Encoder littleEndian ofLittleEndian)

/-! ### Dump -/

/-- `LUA_SIGNATURE`. -/
def LUA_SIGNATURE : Bytes := 27 :: lit "Lua"

/-- `luaU_header`: signature, version, format, endianness, the sizes of `int`,
`size_t`, `Instruction` and `lua_Number`, and whether the last is integral. -/
def luaUHeader : Bytes := LUA_SIGNATURE ++ [0x51, 0, 1, 4, 4, 4, 8, 0]

/-- `DumpVar` of a word. -/
def dumpVar (size n : Nat) : Encoder UInt8 := .block (littleEndian size n)

/-- `DumpChar`. -/
def dumpChar (y : Int) : Encoder UInt8 := .block [(Int8.ofInt y).toUInt8]

/-- `DumpInt`. -/
def dumpInt (x : Nat) : Encoder UInt8 := dumpVar 4 x

/-- `DumpNumber`. -/
def dumpNumber (image : UInt64) : Encoder UInt8 := dumpVar 8 image.toNat

/-- `DumpVector` of words of 4 bytes. -/
def dumpVector (words : List UInt32) : Encoder UInt8 :=
  dumpInt words.length ++ .block (words.flatMap fun w => littleEndian 4 w.toNat)

/-- `DumpString`. -/
def dumpString : Option Bytes → Encoder UInt8
  | none => dumpVar 4 0
  | some s => dumpVar 4 (s.length + 1) ++ .block (s ++ [0])

/-- `ttype` of a constant. -/
def Constant.ttype : Constant → Int
  | .nil => 0
  | .boolean _ => 1
  | .number _ => 3
  | .string _ => 4

/-- One constant of `DumpConstants`. -/
def dumpConstant (o : Constant) : Encoder UInt8 :=
  dumpChar o.ttype ++
    match o with
    | .nil => .nothing
    | .boolean b => dumpChar b.toNat
    | .number image => dumpNumber image
    | .string s => dumpString s

/-- One variable of `DumpDebug`. -/
def dumpLocVar (v : LocVar) : Encoder UInt8 :=
  dumpString v.varname ++ (dumpInt v.startpc ++ dumpInt v.endpc)

/-- `DumpDebug`. -/
def dumpDebug (strip : Bool) (lineinfo : List UInt32) (locvars : List LocVar)
    (upvalues : List (Option Bytes)) : Encoder UInt8 :=
  let lineinfo := if strip then [] else lineinfo
  let locvars := if strip then [] else locvars
  let upvalues := if strip then [] else upvalues
  dumpVector lineinfo ++ (dumpInt locvars.length ++ (.each dumpLocVar locvars ++
    (dumpInt upvalues.length ++ .each dumpString upvalues)))

mutual

/-- `DumpFunction`, with `DumpCode` and `DumpConstants`. -/
def dumpFunction (strip : Bool) : Proto → Option Bytes → Encoder UInt8
  | ⟨source, linedefined, lastlinedefined, nups, numparams, isVararg, maxstacksize, code, k, p,
      lineinfo, locvars, upvalues⟩, parent =>
    dumpString (if source = parent ∨ strip then none else source) ++
      (dumpInt linedefined ++ (dumpInt lastlinedefined ++
        (dumpChar nups.toNat ++ (dumpChar numparams.toNat ++ (dumpChar isVararg.toNat ++
          (dumpChar maxstacksize.toNat ++ (dumpVector code ++
            (dumpInt k.length ++ (.each dumpConstant k ++
              (dumpInt p.length ++ (dumpFunctions strip p source ++
                dumpDebug strip lineinfo locvars upvalues)))))))))))

/-- The loop over `p` in `DumpConstants`. -/
def dumpFunctions (strip : Bool) : List Proto → Option Bytes → Encoder UInt8
  | [], _ => .nothing
  | f :: fs, parent => dumpFunction strip f parent ++ dumpFunctions strip fs parent

end

/-- `luaU_dump`: the status, and the data of the writer. -/
def luaUDump {δ : Type} (f : Proto) (writer : Sink δ UInt8) (data : δ) (strip : Bool) : Int × δ :=
  let D := (Encoder.block luaUHeader ++ dumpFunction strip f none) δ writer ⟨0, data⟩
  (D.status, D.data)

/-! ### Streams -/

/-- `ZIO`: the bytes still unread, and the data of the reader. -/
structure Zio (σ : Type) where
  p : Bytes
  data : σ

/-- A `lua_Reader`: the next block, with no bytes for `NULL`. -/
abbrev Reader (σ : Type) := σ → Bytes × σ

section Streams

variable {σ : Type} (reader : Reader σ)

/-- `luaZ_fill`; none is `EOZ`. -/
def luaZFill (z : Zio σ) : Option UInt8 × Zio σ :=
  match reader z.data with
  | ([], data) => (none, { z with data })
  | (c :: p, data) => (some c, ⟨p, data⟩)

/-- `luaZ_lookahead`. -/
def luaZLookahead (z : Zio σ) : Option UInt8 × Zio σ :=
  match z.p with
  | c :: _ => (some c, z)
  | [] =>
      match luaZFill reader z with
      | (none, z) => (none, z)
      -- `luaZ_fill` removed the first byte; put back it
      | (some c, z) => (some c, { z with p := c :: z.p })

/-- The loop of `luaZ_read`: what was read, the number of missing bytes, and the
stream. Every round reads a byte at least. -/
def luaZReadFrom : Nat → Nat → Zio σ → Bytes × Nat × Zio σ
  | 0, n, z => ([], n, z)
  | rounds + 1, n, z =>
      if n = 0 then ([], 0, z)
      else
        match luaZLookahead reader z with
        | (none, z) => ([], n, z)
        | (some _, z) =>
            let m := if n ≤ z.p.length then n else z.p.length
            let (b, missing, z') := luaZReadFrom rounds (n - m) { z with p := z.p.drop m }
            (z.p.take m ++ b, missing, z')

/-- `luaZ_read`. -/
def luaZRead (n : Nat) (z : Zio σ) : Bytes × Nat × Zio σ := luaZReadFrom reader n n z

end Streams

/-! ### Undump -/

/-- `LUA_ERRRUN`. -/
def LUA_ERRRUN : Nat := 2

/-- `LUA_ERRSYNTAX`. -/
def LUA_ERRSYNTAX : Nat := 3

/-- An error that is thrown: its status, and the message on the stack. -/
structure LoadError where
  errcode : Nat
  msg : Bytes
deriving DecidableEq

/-- `LoadState`, without the stream. -/
structure LoadState (σ : Type) where
  reader : Reader σ
  name : Bytes

/-- What loads a value. -/
abbrev Loader (σ α : Type) := Decoder (Zio σ) LoadError α

/-- `MAX_SIZET`. -/
def MAX_SIZET : Nat := 2 ^ 32 - 3

/-- `luaM_toobig`. -/
def luaMToobig {σ α : Type} : Loader σ α :=
  fun _ => .error ⟨LUA_ERRRUN, lit "memory allocation error: block too big"⟩

/-- The check of `luaM_newvector` for `n` elements of `e` bytes. -/
def luaMNewvector {σ : Type} (n e : Nat) : Loader σ Unit :=
  if n + 1 ≤ MAX_SIZET / e then pure () else luaMToobig

/-- `sizeof(TString)`. -/
def sizeofTString : Nat := 16

section Load

variable {σ : Type} (S : LoadState σ)

/-- The text of `error`. -/
def LoadState.error (why : String) : LoadError :=
  ⟨LUA_ERRSYNTAX, S.name ++ lit ": " ++ lit why ++ lit " in precompiled chunk"⟩

/-- `error`. -/
def LoadState.throw {α : Type} (why : String) : Loader σ α := fun _ => .error (S.error why)

/-- `LoadBlock`. -/
def loadBlock (size : Nat) : Loader σ Bytes := fun z =>
  let (b, r, z) := luaZRead S.reader size z
  if r ≠ 0 then .error (S.error "unexpected end") else .ok (b, z)

/-- `LoadVar` of a word. -/
def loadVar (size : Nat) : Loader σ Nat := do
  let b ← loadBlock S size
  return ofLittleEndian b

/-- `LoadChar`: a `char` has a sign. -/
def loadChar : Loader σ Int := do
  let b ← loadBlock S 1
  return (b.headD 0).toInt8.toInt

/-- `LoadByte`. -/
def loadByte : Loader σ UChar := do
  let x ← loadChar S
  return (Int8.ofInt x).toUInt8

/-- `LoadInt`. -/
def loadInt : Loader σ NonNeg := do
  let x ← loadVar S 4
  if negative : x % 2 ^ 32 ≥ 2 ^ 31 then S.throw "bad integer"
  else return ⟨x % 2 ^ 32, not_le.mp negative⟩

/-- `LoadNumber`. -/
def loadNumber : Loader σ UInt64 := do
  let x ← loadVar S 8
  return UInt64.ofNat x

/-- `LoadString`. -/
def loadString : Loader σ (Option Bytes) := do
  let size ← loadVar S 4
  if size = 0 then return none
  else
    -- `luaZ_openspace`: a `size_t` holds `size + 1`
    if (size + 1) % 2 ^ 32 ≤ MAX_SIZET then
      let s ← loadBlock S size
      -- `luaS_newlstr`: remove trailing '\0'
      if size ≤ MAX_SIZET - sizeofTString then return some (s.take (size - 1))
      else luaMToobig
    else luaMToobig

/-- The words of 4 bytes of a block. -/
def words : Nat → Bytes → List UInt32
  | 0, _ => []
  | n + 1, b => UInt32.ofNat (ofLittleEndian (b.take 4)) :: words n (b.drop 4)

/-- `LoadCode`, and the same for `lineinfo`. -/
def loadVector : Loader σ (List UInt32) := do
  let n ← loadInt S
  luaMNewvector n 4
  let b ← loadBlock S (n * 4)
  return words n b

/-- One constant of `LoadConstants`. -/
def loadConstant : Loader σ Constant := do
  let t ← loadChar S
  match t with
  | 0 => return .nil
  | 1 => do
      let b ← loadChar S
      return .boolean (b ≠ 0)
  | 3 => do
      let image ← loadNumber S
      return .number image
  | 4 => do
      let s ← loadString S
      return .string s
  | _ => S.throw "bad constant"

/-- One variable of `LoadDebug`. -/
def loadLocVar : Loader σ LocVar := do
  let varname ← loadString S
  let startpc ← loadInt S
  let endpc ← loadInt S
  return ⟨varname, startpc, endpc⟩

/-- A vector whose `n` elements of `size` bytes are loaded one after the other. -/
def loadElements {α : Type} (size : Nat) (element : Loader σ α) : Loader σ (List α) := do
  let n ← loadInt S
  luaMNewvector n size
  element.times n

/-- `LoadFunction`, with `LoadConstants` and `LoadDebug`, where `room` more calls are
possible before `nCcalls` is above `LUAI_MAXCCALLS`. -/
def loadFunction : Nat → Bytes → Loader σ Proto
  | 0, _ => S.throw "code too deep"
  | room + 1, p => do
      let source ← loadString S
      let source := source.getD p
      let linedefined ← loadInt S
      let lastlinedefined ← loadInt S
      let nups ← loadByte S
      let numparams ← loadByte S
      let isVararg ← loadByte S
      let maxstacksize ← loadByte S
      let code ← loadVector S
      let k ← loadElements S 16 (loadConstant S)
      let ps ← loadElements S 4 (loadFunction room source)
      let lineinfo ← loadVector S
      let locvars ← loadElements S 12 (loadLocVar S)
      let upvalues ← loadElements S 4 (loadString S)
      let f : Proto := ⟨some source, linedefined, lastlinedefined, nups, numparams, isVararg,
        maxstacksize, code, k, ps, lineinfo, locvars, upvalues⟩
      if luaGCheckcode f then return f else S.throw "bad code"

/-- `LoadHeader`. -/
def loadHeader : Loader σ Unit := do
  let s ← loadBlock S 12
  if luaUHeader ≠ s then S.throw "bad header" else return ()

end Load

/-- `LUAI_MAXCCALLS`. -/
def LUAI_MAXCCALLS : Nat := 200

/-- The name of a chunk in its errors. -/
def chunkName (name : Bytes) : Bytes :=
  match name with
  | 64 :: rest => rest
  | 61 :: rest => rest
  | 27 :: _ => lit "binary string"
  | _ => name

/-- `luaU_undump`, called at the depth `nCcalls`. -/
def luaUUndump {σ : Type} (reader : Reader σ) (nCcalls : Nat) (name : Bytes) : Loader σ Proto := do
  let S : LoadState σ := ⟨reader, chunkName name⟩
  loadHeader S
  loadFunction S (LUAI_MAXCCALLS - nCcalls) (lit "=?")

end ProfiLua
