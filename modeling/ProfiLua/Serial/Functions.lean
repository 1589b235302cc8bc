import ProfiLua.Lua.Library

/-!
The functions of the serial library (`profiserial.c`), registered for Lua as
`proserial`.

They pass their arguments on to a binary library (`asSerialCollectCWrap.h`),
converted to `int`. The model keeps the calls made to it; its answers are
parameters, that of `SendByte` for each call of a run.
-/

namespace ProfiLua

open Program

/-- A call of the binary library. -/
inductive SerialCall where
  | mount
  | unMount (handle : Int32)
  | check (handle port : Int32)
  | openPort (handle port : Int32)
  | close (handle : Int32)
  | sendByte (handle byte : Int32)
  | bufferCount (handle : Int32)
  | config (handle baud bits parity stop : Int32)
  | readByte (handle : Int32)
  | bufferFlush (handle : Int32)
deriving DecidableEq

/-- The calls made so far. -/
structure Serial where
  calls : List SerialCall
deriving DecidableEq

/-- What the binary library answers. `sendByte i` is its answer to a `SendByte`
that `i` calls were made before. -/
structure SerialAnswers where
  mount : Int32
  unMount : Bool
  check : Bool
  openPort : Bool
  close : Bool
  sendByte : Nat → Bool
  bufferCount : Int32
  config : Bool
  readByte : Int32
  bufferFlush : Bool

/-- A `bool` as an `int`. -/
def boolInt (b : Bool) : Int32 := if b then 1 else 0

/-- A byte of a string as an `int`; `char` is signed. -/
def charInt (b : UInt8) : Int32 := b.toInt8.toInt32

/-- Makes a call; its answer is known. -/
def serialCall (call : SerialCall) : WorldM Serial PUnit :=
  modify fun s => ⟨s.calls ++ [call]⟩

section Functions

variable {σ : Type} (E : LibEnv σ) (A : SerialAnswers)

/-- `lua_tonumber(L, idx)`, passed as an `int`. -/
def luaToint (idx : Int) : LuaM σ Int32 :=
  return castInt E.casts (← luaTonumber E.toEnv idx)

/-- `lua_pushnumber(L, ret); return 1;`. -/
def returnInt (ret : Int32) : LibM σ Serial Int := do
  onLua (luaPushnumber (.fin ret.toInt))
  return 1

/-- `plSerialMount`. -/
def plSerialMount : LibM σ Serial Int := do
  if (← onLua luaGettop) = 0 then
    onWorld (serialCall .mount)
    returnInt A.mount
  else returnInt 0

/-- The body of the functions with the handle as their only argument; `start` is
what `ret` is without it. -/
def plSerialOnHandle (start : Int32) (call : Int32 → SerialCall) (answer : Int32) :
    LibM σ Serial Int := do
  if (← onLua luaGettop) = 1 then
    onWorld (serialCall (call (← onLua (luaToint E 1))))
    returnInt answer
  else returnInt start

/-- `plSerialUnMount`. -/
def plSerialUnMount : LibM σ Serial Int := plSerialOnHandle E 0 .unMount (boolInt A.unMount)

/-- `plSerialCheck`. -/
def plSerialCheck : LibM σ Serial Int := do
  if (← onLua luaGettop) = 2 then
    onWorld (serialCall (.check (← onLua (luaToint E 1)) (← onLua (luaToint E 2))))
    returnInt (boolInt A.check)
  else returnInt 0

/-- `plSerialOpen`. -/
def plSerialOpen : LibM σ Serial Int := do
  if (← onLua luaGettop) = 2 then
    onWorld (serialCall (.openPort (← onLua (luaToint E 1)) (← onLua (luaToint E 2))))
    returnInt (boolInt A.openPort)
  else returnInt 0

/-- `plSerialClose`. -/
def plSerialClose : LibM σ Serial Int := plSerialOnHandle E 0 .close (boolInt A.close)

/-- `SendByte`. -/
def sendByte (handle byte : Int32) : WorldM Serial Bool := do
  let s ← get
  serialCall (.sendByte handle byte)
  return A.sendByte s.calls.length

/-- `lua_tolstring(L, idx, &len)` where there is a string: nothing is converted. -/
def stringAt (idx : Int) : LuaM σ Bytes := do
  match ← valueAt idx with
  | .string s => return s
  | _ => return []

/-- `for( i = 0; i < strLen; ++i ) ret += SendByte( lua_tonumber(L,1), *pData++ )`. -/
def sendString (ret : Int32) : Bytes → LibM σ Serial Int32
  | [] => return ret
  | b :: rest => do
      let handle ← onLua (luaToint E 1)
      let ok ← onWorld (sendByte A handle (charInt b))
      sendString (ret + boolInt ok) rest

/-- `for( i = 1; 1; i++ )` over the elements of the table, for at most so many
rounds. The source counts in a `size_t`, here in `Nat`: only a metatable can answer
the 2^32 lookups after which the `size_t` starts at 0 again. -/
def sendTable : Nat → Nat → Int32 → LibM σ Serial Int32
  | 0, _, _ => throw .endless
  | rounds + 1, i, ret => do
      onLua (luaPushnumber (.ofNat i))
      onLua (luaGettable E.toEnv 2)
      let type ← onLua (luaType (-1))
      if type = .number then
        let handle ← onLua (luaToint E 1)
        let byte ← onLua (luaToint E (-1))
        let ok ← onWorld (sendByte A handle byte)
        onLua (luaPop 1)
        sendTable rounds (i + 1) (boolInt ok)
      else if type = .string then
        let s ← onLua (stringAt (-1))
        let ret ← sendString E A ret s
        onLua (luaPop 1)
        sendTable rounds (i + 1) ret
      else
        onLua (luaPop 1)
        return ret

/-- `plSerialSend`, registered as `Send`. -/
def plSerialSend (rounds : Nat) : LibM σ Serial Int := do
  if (← onLua luaGettop) = 2 then
    match ← onLua (luaType 2) with
    | .number =>
        let handle ← onLua (luaToint E 1)
        let ok ← onWorld (sendByte A handle (← onLua (luaToint E 2)))
        returnInt (boolInt ok)
    | .string => returnInt (← sendString E A 0 (← onLua (stringAt 2)))
    | .table => returnInt (← sendTable E A rounds 1 0)
    | _ => returnInt 0
  else returnInt 0

/-- `plSerialBufferCount`. -/
def plSerialBufferCount : LibM σ Serial Int := plSerialOnHandle E (-1) .bufferCount A.bufferCount

/-- `plSerialConfig`. -/
def plSerialConfig : LibM σ Serial Int := do
  if (← onLua luaGettop) = 5 then
    onWorld (serialCall (.config (← onLua (luaToint E 1)) (← onLua (luaToint E 2))
      (← onLua (luaToint E 3)) (← onLua (luaToint E 4)) (← onLua (luaToint E 5))))
    returnInt (boolInt A.config)
  else returnInt 0

/-- `plSerialReadByte`. -/
def plSerialReadByte : LibM σ Serial Int := plSerialOnHandle E (-1) .readByte A.readByte

/-- `plSerialBufferFlush`. -/
def plSerialBufferFlush : LibM σ Serial Int :=
  plSerialOnHandle E 0 .bufferFlush (boolInt A.bufferFlush)

end Functions

/-- `serial_funcs`. -/
inductive SerialFunc where
  | mount
  | unMount
  | checkPort
  | openPort
  | close
  | send
  | bufferCount
  | config
  | readByte
  | bufferFlush
deriving DecidableEq

/-- The name in the table `proserial`. -/
def SerialFunc.name : SerialFunc → String
  | .mount => "Mount"
  | .unMount => "UnMount"
  | .checkPort => "CheckPort"
  | .openPort => "Open"
  | .close => "Close"
  | .send => "Send"
  | .bufferCount => "BufferCount"
  | .config => "Config"
  | .readByte => "ReadByte"
  | .bufferFlush => "BufferFlush"

/-- The function registered under the name. -/
def SerialFunc.body {σ : Type} (E : LibEnv σ) (A : SerialAnswers) (rounds : Nat) :
    SerialFunc → LibM σ Serial Int
  | .mount => plSerialMount A
  | .unMount => plSerialUnMount E A
  | .checkPort => plSerialCheck E A
  | .openPort => plSerialOpen E A
  | .close => plSerialClose E A
  | .send => plSerialSend E A rounds
  | .bufferCount => plSerialBufferCount E A
  | .config => plSerialConfig E A
  | .readByte => plSerialReadByte E A
  | .bufferFlush => plSerialBufferFlush E A

end ProfiLua
