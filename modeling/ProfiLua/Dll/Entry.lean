import ProfiLua.Dll.State
import ProfiLua.Program.Run

/-!
The functions of `profilua.c`, in the order of the source.

The three places that call a script function with a table of the inputs share
`callHook`, and the two name queries and the two count queries share one body
each; every exported function is that body at its own values. Heights and
checks of the Lua stack (`height`, `check`, `popAbove`, `leave`) are notes for
the record, see `ProfiLua.Dll.State`.
-/

namespace ProfiLua

variable {σ : Type} (E : Env σ)

/-! ### Opening and closing the script -/

/-- `L = lua_open()`. -/
def luaOpen : DllM σ PUnit :=
  modify fun s =>
    match E.luaOpen s.epoch with
    | none => { s with epoch := s.epoch + 1 }
    | some heap => { s with L := some ⟨[.nil], heap⟩, epoch := s.epoch + 1 }.note [.luaOpen]

/-- The `if (L == NULL)` block of `OpenLuaScript`; false when there is no memory. -/
def openState : DllM σ Bool := do
  if (← get).L.isSome then return true
  else
    luaOpen E
    if (← get).L.isSome then
      onL (modify fun l => { l with heap := E.luaLOpenlibs l.heap })
      return true
    else return false

/-- Records the chunk on top of the stack as running; an error message in its
place runs nothing. -/
def emitChunk (purpose : Purpose) : DllM σ PUnit :=
  emit fun s =>
    match s.L with
    | some ⟨.function _ :: _, _⟩ => [.activation (.chunk purpose) none]
    | _ => []

/-- Loads the script file and runs it, protected. Whatever the chunk returns
stays on the stack. -/
def runChunk (purpose : Purpose) : DllM σ PUnit := do
  onL (luaLLoadfile E (← get).gFileNum)
  emitChunk purpose
  onL (luaPcall E)

/-- `OpenLuaScript`. -/
def openLuaScript (purpose : Purpose) : DllM σ Bool := do
  if ← openState E then
    runChunk E purpose
    return true
  else return false

/-- `CloseLuaScript`. -/
def closeLuaScript : DllM σ PUnit :=
  modify fun s =>
    if s.L.isSome then { s.note [.luaClose] with L := none, epoch := s.epoch + 1 } else s

/-! ### Pin counts and pin names -/

/-- The count on top of the stack; an undefined one leaves the old count. -/
def readCount (store : UChar → Dll σ → Dll σ) : DllM σ PUnit := do
  if ← onL (luaIsnil (-1)) then pure ()
  else
    let d ← onL (luaTonumber E (-1))
    modify (store (castUChar E.toCLib d + 1))

/-- The common body of `CNumInputsEx` and `CNumOutputsEx`. -/
def countQuery (name : String) (store : UChar → Dll σ → Dll σ) : DllM σ PUnit := do
  modify fun s => { s with gFileNum := castUChar E.toCLib (s.host.pUser 100) }
  if ← openLuaScript E .query then
    onL (luaGetglobal E name)
    readCount E store
    closeLuaScript
  else setError 1

/-- `CNumInputsEx`: one more for the CONSOLE pin. -/
def cNumInputsEx : DllM σ UChar := do
  countQuery E "gNumInputs" fun n s => { s with gNumInputs := n }
  return (← get).gNumInputs

/-- `CNumOutputsEx`: one more for the ERROR pin. -/
def cNumOutputsEx : DllM σ UChar := do
  countQuery E "gNumOutputs" fun n s => { s with gNumOutputs := n }
  return (← get).gNumOutputs

/-- The code of `$`, which marks a string pin. -/
def dollar : UInt8 := 36

/-- A name that starts with `$` marks its channel. -/
def markString (mark : DllM σ PUnit) (name : Bytes) : DllM σ PUnit := do
  if name.head? = some dollar then mark else pure ()

/-- Reads the name the script function left on the stack. -/
def readName (mark : DllM σ PUnit) : DllM σ Bytes := do
  if ← onL (luaIsstring (-1)) then
    let text ← onL (luaTostring E)
    markString mark (cstr text)
    return cstr text
  else return lit "!ERROR!"

/-- Asks the script for the name of a channel. -/
def askName (hook : Hook) (mark : DllM σ PUnit) (channel : UChar) : DllM σ Bytes := do
  let bar ← height
  onL (luaPushstring (lit hook.name))
  onL (luaGettable E globalsIndex)
  if ← onL (luaIsfunction (-1)) then
    onL (luaPushinteger channel.toNat)
    emitHook hook
    onL (luaCall E 1 1)
    let name ← readName E mark
    popAbove bar
    return name
  else return lit "!ERROR!"

/-- The common body of `GetInputName` and `GetOutputName`; the result is what
`Name` holds at the end. -/
def nameQuery (reserved : String) (hook : Hook) (mark : Nat → UChar → DllM σ PUnit)
    (channel : UChar) : DllM σ Bytes := do
  if channel = 0 then return lit reserved
  else
    if ← openLuaScript E .query then
      let name ← askName E hook (mark channel.toNat 1) channel
      closeLuaScript
      return name
    else return lit "!ERROR!"

/-- `GetInputName`. -/
def getInputName (channel : UChar) : DllM σ Bytes :=
  nameQuery E "CONSOLE" .gInputName markInput channel

/-- `GetOutputName`. -/
def getOutputName (channel : UChar) : DllM σ Bytes :=
  nameQuery E "ERROR" .gOutputName markOutput channel

/-! ### Calling the script with the inputs -/

/-- Pushes the entry of input `i`; `marked` does it for a string pin. -/
def pushInput (marked : Nat → DllM σ PUnit) (i : Nat) : DllM σ PUnit := do
  if ← inMarked i then marked i
  else onL (luaPushnumber ((← get).host.pInput i))

/-- Builds the argument table on the stack. -/
def pushInputs (marked : Nat → DllM σ PUnit) : DllM σ PUnit := do
  let inputs := (← get).gNumInputs.toNat
  onL (luaCreatetable (inputs - 1))
  Program.countUp 1 inputs fun i => do
    onL (luaPushnumber (.ofNat i))
    pushInput marked i
    onL (luaSettable E (-3))

/-- Looks a script function up and calls it with the inputs. False when there
is no such function; what was found in its place stays on the stack. -/
def callHook (hook : Hook) (marked : Nat → DllM σ PUnit) (nresults : Nat) : DllM σ Bool := do
  onL (luaPushstring (lit hook.name))
  onL (luaGettable E globalsIndex)
  if ← onL (luaIsfunction (-1)) then
    pushInputs E marked
    emitHook hook
    onL (luaCall E 1 nresults)
    return true
  else
    emitMissing hook
    return false

/-- The string dummy: no `PString` where the simulation starts and stops. -/
def stringDummy (_ : Nat) : DllM σ PUnit := onL (luaPushnumber (.fin 0))

/-! ### Reading results back -/

/-- Puts entry `i` of the table being read on the stack, reading at index -2. -/
def fetchElement (tbl : TValue) (i : Nat) : DllM σ PUnit := do
  onL (luaPushnumber (.ofNat i))
  check fun l => decide (index2adr l (-2) = some tbl)
  onL (luaGettable E (-2))

/-- A number from the top of the stack into a cell. In the bad branch the
element is popped here and then again by the caller. -/
def storeNumber (bar : Int) (cell : LuaNumber → DllM σ PUnit) (bad : DllM σ PUnit) :
    DllM σ PUnit := do
  if ← onL (luaIsnumber E (-1)) then cell (← onL (luaTonumber E (-1)))
  else
    cell (.fin 0)
    popAbove bar
    bad

/-- A string from the top of the stack into `PString[i]`, with the same two
pops in the bad branch. -/
def storeString (bar : Int) (i : Nat) : DllM σ PUnit := do
  if ← onL (luaIsstring (-1)) then setPString i (cstr (← onL (luaTostring E)))
  else
    setPString i []
    popAbove bar
    setError 1

/-- The element of output `i`, into `POutput[i]` or, for a string pin, as
`marked` does it. -/
def storeOutput (bar : Int) (marked : Nat → DllM σ PUnit) (i : Nat) : DllM σ PUnit := do
  if ← outMarked i then marked i
  else storeNumber E bar (setPOutput i) (setError 1)

/-- One round of the read-back loop of `CCalculateEx`. -/
def readOutput (bar : Int) (tbl : TValue) (i : Nat) : DllM σ PUnit := do
  fetchElement E tbl i
  storeOutput E bar (storeString E bar) i
  popAbove bar

/-- One round of the read-back loop of `CSimStartFlaw`: string pins are left
alone, there is no `PString` yet. -/
def readStartOutput (bar : Int) (tbl : TValue) (i : Nat) : DllM σ PUnit := do
  fetchElement E tbl i
  storeOutput E bar (fun _ => pure ()) i
  popAbove bar

/-- One round of the read-back loop of `CSimStop`. -/
def readPUser (bar : Int) (tbl : TValue) (i : Nat) : DllM σ PUnit := do
  fetchElement E tbl (i + 1)
  storeNumber E bar (setPUser i) (pure ())
  popAbove bar

/-- Reads the table on top of the stack, channel by channel, and pops it; what
is no table stays. -/
def takeTable (bar : Int) (lo : Nat) (hi : Dll σ → Nat) (round : TValue → Nat → DllM σ PUnit)
    (other : DllM σ PUnit) : DllM σ PUnit := do
  if ← onL (luaIstable (-1)) then
    let tbl ← onL (valueAt (-1))
    let s ← get
    Program.countUp lo (hi s) (round tbl)
    popAbove bar
  else other

/-- Notes whether the stack is as high as `bar` again. -/
def leave (bar : Int) : DllM σ PUnit := check fun l => decide (l.gettop = bar)

/-! ### The debug console -/

def debugConsoleOn (s : Dll σ) : Dll σ :=
  { s with console := true }.note [.consoleOn]

def debugConsoleOff (s : Dll σ) : Dll σ :=
  { s with console := false }.note [.consoleOff]

/-- `PInput[0] > LOGIC_HIGH_THRES`. -/
def Host.consoleHigh (h : Host) : Bool := (h.pInput 0).gt logicHighThres

/-! ### The simulation -/

/-- Opens the console at the start, whether or not it is open. -/
def consoleStart : DllM σ PUnit :=
  modify fun s =>
    if s.host.consoleHigh then
      { debugConsoleOn s with gConsole := 1, gConsoleTop := 0 }
    else s

/-- Clears the markers and queries every name, which sets them again. -/
def queryMarkers : DllM σ PUnit := do
  Program.countUp 0 markerSize fun i => do
    markInput i 0
    markOutput i 0
  let inputs := (← get).gNumInputs.toNat
  Program.countUp 0 inputs fun i => do
    let name ← getInputName E i.toUInt8
    emit fun _ => [.dummy (name.length + 1)]
  let outputs := (← get).gNumOutputs.toNat
  Program.countUp 0 outputs fun i => do
    let name ← getOutputName E i.toUInt8
    emit fun _ => [.dummy (name.length + 1)]

/-- Creates the global `gPUser` from `PUser[0..100]`. -/
def storePUser : DllM σ PUnit := do
  onL (luaCreatetable 101)
  Program.countUp 0 101 fun i => do
    onL (luaPushnumber (.ofNat (i + 1)))
    let s ← get
    onL (luaPushnumber (s.host.pUser i))
    onL (luaSettable E (-3))
  onL (luaSetglobal E "gPUser")

/-- What `CSimStartFlaw` does with the result of `gSimStart`. -/
def readStartResult (bar : Int) : DllM σ PUnit := do
  emitReply (.result .gSimStart)
  takeTable bar 1 (fun s => s.gNumOutputs.toNat) (readStartOutput E bar) (setError 1)

/-- Calls `gSimStart`; the error is taken back whatever the result was. -/
def startScript (bar : Int) : DllM σ PUnit := do
  if ← callHook E .gSimStart stringDummy 1 then
    readStartResult E bar
    setPOutput 0 plOk
    setError 0
  else pure ()

/-- The part of `CSimStartFlaw` that needs the script. -/
def startSession : DllM σ PUnit := do
  let bar ← height
  storePUser E
  startScript E bar
  leave bar

/-- `CSimStartFlaw`. -/
def cSimStartFlaw : DllM σ PUnit := do
  setError 1
  setPOutput 0 plError
  consoleStart
  queryMarkers E
  if ← openLuaScript E .session then startSession E
  else pure ()

/-- The start that `CSimStart` leaves to the first `CCalculateEx`. -/
def startOverride : DllM σ PUnit := do
  if (← get).gCSimStartOverride ≠ 0 then
    cSimStartFlaw E
    modify fun s => { s with gCSimStartOverride := 0 }
  else pure ()

/-- The console part of `CCalculateEx`. Bringing the window to the top has no
effect on the state. -/
def consoleStep : DllM σ PUnit := do
  modify fun s =>
    if s.host.consoleHigh ∧ s.gConsole = 0 then
      { debugConsoleOn s with gConsole := 1, gConsoleTop := 0 }
    else s
  modify fun s =>
    if s.gConsole = 1 ∧ s.gConsoleTop = 0 then { s with gConsoleTop := s.gConsoleTop + 1 } else s

/-- What `CCalculateEx` does with the result of `gCalculate`. -/
def readResult (bar : Int) : DllM σ PUnit := do
  emitReply (.result .gCalculate)
  takeTable bar 1 (fun s => s.gNumOutputs.toNat) (readOutput E bar) (setError 1)

/-- The entry of a string pin in `CCalculateEx`. -/
def pushPString (i : Nat) : DllM σ PUnit := do onL (luaPushstring ((← get).host.pString i))

/-- The data exchange with `gCalculate`. -/
def exchange (bar : Int) : DllM σ PUnit := do
  if ← callHook E .gCalculate pushPString 1 then readResult E bar
  else setError 1

/-- The rest of `CCalculateEx`. -/
def calculate : DllM σ PUnit := do
  let bar ← height
  exchange E bar
  leave bar

/-- `CCalculateEx` after the start. -/
def runStep : DllM σ PUnit := do
  consoleStep
  if (← get).gERROR ≠ 0 then setPOutput 0 plError
  else calculate E

/-- `CCalculateEx`. -/
def cCalculateEx : DllM σ PUnit := do
  startOverride E
  runStep E

/-- `CSimStart`. -/
def cSimStart : DllM σ PUnit := modify fun s => { s with gCSimStartOverride := 1 }

/-- Reads the global `gPUser` back into `PUser[0..99]`. -/
def restorePUser : DllM σ PUnit := do
  let bar ← height
  onL (luaPushstring (lit "gPUser"))
  onL (luaGettable E globalsIndex)
  emitReply .gPUser
  takeTable bar 0 (fun _ => 100) (readPUser E bar) (pure ())

/-- Calls `gSimStop`. -/
def callStop : DllM σ PUnit := do
  if ← callHook E .gSimStop stringDummy 0 then pure ()
  else setError 1

/-- The part of `CSimStop` that the error flag skips. -/
def stopScript : DllM σ PUnit := do
  if (← get).gERROR = 0 then
    callStop E
    restorePUser E
  else pure ()

/-- The console part of `CSimStop`. -/
def consoleStop : DllM σ PUnit :=
  modify fun s =>
    if s.gConsole = 1 then
      { debugConsoleOff s with gConsole := 0, gConsoleTop := 0 }
    else s

/-- `CSimStop`. -/
def cSimStop : DllM σ PUnit := do
  stopScript E
  closeLuaScript
  consoleStop

/-! ### Calls from the host -/

/-- The exported functions. -/
inductive Entry where
  | cNumInputsEx
  | cNumOutputsEx
  | getInputName (channel : UChar)
  | getOutputName (channel : UChar)
  | cSimStart
  | cCalculateEx
  | cSimStop
deriving DecidableEq

/-- A call: what the host wrote to its arrays since the last one, and the
function it calls with them. -/
structure HostCall where
  write : Host → Host
  entry : Entry

/-- What the host gets back. -/
inductive Returned where
  | nothing
  | count (n : UChar)
  | name (text : Bytes)
deriving DecidableEq

def Entry.perform : Entry → DllM σ Returned
  | .cNumInputsEx => do return .count (← ProfiLua.cNumInputsEx E)
  | .cNumOutputsEx => do return .count (← ProfiLua.cNumOutputsEx E)
  | .getInputName channel => do return .name (← ProfiLua.getInputName E channel)
  | .getOutputName channel => do return .name (← ProfiLua.getOutputName E channel)
  | .cSimStart => do ProfiLua.cSimStart; return .nothing
  | .cCalculateEx => do ProfiLua.cCalculateEx E; return .nothing
  | .cSimStop => do ProfiLua.cSimStop E; return .nothing

/-- The exported functions of a simulation return nothing. -/
theorem Entry.perform_cSimStart :
    Entry.cSimStart.perform E = ProfiLua.cSimStart >>= fun _ => pure .nothing := rfl

theorem Entry.perform_cCalculateEx :
    Entry.cCalculateEx.perform E = ProfiLua.cCalculateEx E >>= fun _ => pure .nothing := rfl

theorem Entry.perform_cSimStop :
    Entry.cSimStop.perform E = ProfiLua.cSimStop E >>= fun _ => pure .nothing := rfl

/-- One call from the host. -/
def HostCall.perform (c : HostCall) : DllM σ Returned := do
  modify fun s => { s with host := c.write s.host }
  c.entry.perform E

/-- The host's calls, in order. -/
def runCalls : List HostCall → DllM σ (List Returned) := Program.runAll (HostCall.perform E)

/-! ### A sample world -/

/-- Calls that leave the host's arrays alone. -/
def quietCalls (entries : List Entry) : List HostCall := entries.map fun entry => ⟨id, entry⟩

/-- All pins low, all cells zero, all strings empty. -/
def sampleHost : Host := ⟨fun _ => .fin 0, fun _ => .fin 0, fun _ => .fin 0, fun _ => []⟩

/-- A world with one table, the globals, and memory for every Lua state. The
script file is function 0 and assigns `globals`; any other function answers
`answer`. No string reads as a number. -/
def sampleEnv (globals : List (String × TValue))
    (answer : Nat → List TValue → Heap Unit → List TValue × Heap Unit) : Env Unit where
  strtod := fun _ => (.fin 0, 0)
  strtoul := fun _ _ => (0, 0)
  number2str := fun _ => lit "0"
  ucharOutOfRange := fun _ => 0
  unsignedOutOfRange := fun _ => 0
  load := fun _ h => (.function 0, h)
  call := fun func args h =>
    match func with
    | .function 0 =>
        .returned [] (globals.foldl (fun h (name, v) => h.store 0 (.string (lit name)) v) h)
    | .function f =>
        let (values, h) := answer f args h
        .returned values h
    | _ => .raised .nil h
  index := fun _ _ h => .raised .nil h
  newindex := fun _ _ _ h => .raised .nil h
  luaOpen := fun _ =>
    some
      { tables := fun t => if t = 0 then some .empty else none
        bound := 1
        fresh := Heap.oneTable_fresh
        globals := 0
        globals_used := Nat.zero_lt_one
        metatables := fun _ => false
        rest := () }
  luaLOpenlibs := id

end ProfiLua
