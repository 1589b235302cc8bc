import ProfiLua.Lua.State

/-!
The process-wide state of the DLL (`profilua.c`): its globals, the host's
arrays, the debug console, and a record of what it did.

The record is not program state. `trace` lists the Lua states opened and
closed, the script activations with the argument table passed, what the script
answered, and the console calls, each with the epoch it happened in; `balanced`
says whether every check of the Lua stack discipline made so far has passed. No
branch reads either.
-/

namespace ProfiLua

/-- The script functions the DLL calls. -/
inductive Hook where
  | gInputName
  | gOutputName
  | gSimStart
  | gCalculate
  | gSimStop
deriving DecidableEq

/-- The global variable that holds the function. -/
def Hook.name : Hook → String
  | .gInputName => "gInputName"
  | .gOutputName => "gOutputName"
  | .gSimStart => "gSimStart"
  | .gCalculate => "gCalculate"
  | .gSimStop => "gSimStop"

/-- What `OpenLuaScript` was called for: a pin count or a pin name, or the
simulation itself. -/
inductive Purpose where
  | query
  | session
deriving DecidableEq

/-- A piece of the script that the DLL sets running. -/
inductive Activation where
  | chunk (purpose : Purpose)
  | hook (hook : Hook)
deriving DecidableEq

/-- A value the DLL takes from the script: the function was missing, the value
is no table, or a table with its entries at the integer keys. -/
inductive Reply where
  | missing
  | value (v : TValue)
  | table (plain : Bool) (elem : Nat → TValue)

/-- Where a reply comes from. -/
inductive Source where
  | result (hook : Hook)
  | gPUser
deriving DecidableEq

inductive Event where
  | luaOpen
  | luaClose
  | activation (what : Activation) (argument : Option Table)
  /-- With `gNumOutputs` and the output markers at that time. -/
  | reply (source : Source) (outputs : Nat) (marked : Nat → Bool) (reply : Reply)
  /-- This many bytes were copied into `dummy`. -/
  | dummy (bytes : Nat)
  | consoleOn
  | consoleOff

/-- The arrays the host passes to the DLL. `pString i` is the C string at
`PString[i]`. -/
structure Host where
  pInput : Nat → LuaNumber
  pOutput : Nat → LuaNumber
  pUser : Nat → LuaNumber
  pString : Nat → Bytes

structure Dll (σ : Type) where
  L : Option (LuaState σ)
  gNumInputs : UChar
  gNumOutputs : UChar
  gERROR : UChar
  gFileNum : UChar
  gConsole : UChar
  gConsoleTop : UChar
  gInStrMarker : Nat → UChar
  gOutStrMarker : Nat → UChar
  gCSimStartOverride : UChar
  host : Host
  /-- Whether the console window is open. -/
  console : Bool
  /-- How often `lua_open` or `lua_close` has been called. Each Lua state has an
  epoch of its own. -/
  epoch : Nat
  balanced : Bool
  trace : List (Nat × Event)

/-- The DLL as it is loaded. -/
def Dll.init {σ : Type} (host : Host) : Dll σ where
  L := none
  gNumInputs := 0
  gNumOutputs := 0
  gERROR := 0
  gFileNum := 0
  gConsole := 0
  gConsoleTop := 0
  gInStrMarker := fun _ => 0
  gOutStrMarker := fun _ => 0
  gCSimStartOverride := 0
  host := host
  console := false
  epoch := 0
  balanced := true
  trace := []

/-- Why a call from the host did not return. -/
inductive Stop where
  /-- An API function was called with `L == NULL`. -/
  | nullState
  /-- An access outside a C array. -/
  | outOfBounds
  | lua (reason : LuaStop)
deriving DecidableEq

/-- A program over the DLL's state. -/
abbrev DllM (σ : Type) := EStateM Stop (Dll σ)

/-- The size of `gInStrMarker` and `gOutStrMarker`. -/
def markerSize : Nat := 100

/-- `LOGIC_HIGH`, `LOGIC_LOW` and `LOGIC_HIGH_THRES`. -/
def logicHigh : LuaNumber := .fin 5

def logicLow : LuaNumber := .fin 0

def logicHighThres : LuaNumber := .fin ⟨5, 2, by decide, by decide⟩

/-- `PL_ERROR` and `PL_OK`. -/
def plError : LuaNumber := logicHigh

def plOk : LuaNumber := logicLow

section Access

variable {σ : Type}

/-- An API call on the global `L`. -/
def onL {α : Type} (call : LuaM σ α) : DllM σ α := fun s =>
  match s.L with
  | none => .error .nullState s
  | some l =>
      match call l with
      | .ok a l' => .ok a { s with L := some l' }
      | .error e l' => .error (.lua e) { s with L := some l' }

/-- The state with events added to its record. -/
def Dll.note (s : Dll σ) (events : List Event) : Dll σ :=
  { s with trace := s.trace ++ events.map (Prod.mk s.epoch) }

/-- Appends to the record. -/
def emit (events : Dll σ → List Event) : DllM σ PUnit := modify fun s => s.note (events s)

/-- Notes the result of a check of the stack discipline. -/
def check (ok : LuaState σ → Bool) : DllM σ PUnit :=
  modify fun s => { s with balanced := s.balanced && s.L.all ok }

/-- The height of the Lua stack, for later checks. -/
def height : DllM σ Int := return ((← get).L.map LuaState.gettop).getD 0

/-- `lua_pop(L, 1)` in a function that set up at height `bar`. -/
def popAbove (bar : Int) : DllM σ PUnit := do
  onL (luaPop 1)
  check fun l => decide (bar ≤ l.gettop)

def setError (error : UChar) : DllM σ PUnit := modify fun s => { s with gERROR := error }

def setPOutput (i : Nat) (d : LuaNumber) : DllM σ PUnit :=
  modify fun s => { s with host := { s.host with pOutput := Function.update s.host.pOutput i d } }

def setPUser (i : Nat) (d : LuaNumber) : DllM σ PUnit :=
  modify fun s => { s with host := { s.host with pUser := Function.update s.host.pUser i d } }

def setPString (i : Nat) (text : Bytes) : DllM σ PUnit :=
  modify fun s => { s with
    host := { s.host with pString := Function.update s.host.pString i text } }

/-- Reads `gInStrMarker[i]`. -/
def inMarked (i : Nat) : DllM σ Bool := do
  if i < markerSize then return (← get).gInStrMarker i ≠ 0 else throw .outOfBounds

/-- Reads `gOutStrMarker[i]`. -/
def outMarked (i : Nat) : DllM σ Bool := do
  if i < markerSize then return (← get).gOutStrMarker i ≠ 0 else throw .outOfBounds

/-- `gInStrMarker[i] = mark`. -/
def markInput (i : Nat) (mark : UChar) : DllM σ PUnit := do
  if i < markerSize then
    modify fun s => { s with gInStrMarker := Function.update s.gInStrMarker i mark }
  else throw .outOfBounds

/-- `gOutStrMarker[i] = mark`. -/
def markOutput (i : Nat) (mark : UChar) : DllM σ PUnit := do
  if i < markerSize then
    modify fun s => { s with gOutStrMarker := Function.update s.gOutStrMarker i mark }
  else throw .outOfBounds

/-- What a value taken from the script is to the DLL. -/
def replyOf (heap : Heap σ) : TValue → Reply
  | .table t =>
      .table (!(heap.table t).metatable) fun j => (heap.table t).node (.number (.ofNat j))
  | v => .value v

/-- The string pins among the outputs. -/
def Dll.outputMarks (s : Dll σ) (j : Nat) : Bool := s.gOutStrMarker j ≠ 0

/-- Records the value on top of the stack as the script's answer. -/
def emitReply (source : Source) : DllM σ PUnit :=
  emit fun s =>
    match s.L with
    | some ⟨v :: _, heap⟩ =>
        [.reply source s.gNumOutputs.toNat s.outputMarks (replyOf heap v)]
    | _ => []

/-- Records that a script function was not found. -/
def emitMissing (hook : Hook) : DllM σ PUnit :=
  emit fun s => [.reply (.result hook) s.gNumOutputs.toNat s.outputMarks .missing]

/-- Records that a script function is about to be called with the table on top
of the stack. -/
def emitHook (hook : Hook) : DllM σ PUnit :=
  emit fun s =>
    match s.L with
    | some ⟨.table t :: _, heap⟩ => [.activation (.hook hook) (some (heap.table t))]
    | _ => [.activation (.hook hook) none]

/-! ### Running the accessors -/

/-- A call on the open Lua state: what the API call does there is done to `L`, and
nothing else of the DLL changes. -/
theorem onL_ok {α : Type} {s : Dll σ} {l l' : LuaState σ} {call : LuaM σ α} {a : α}
    (live : s.L = some l) (run : call l = .ok a l') :
    onL call s = .ok a { s with L := some l' } := by
  unfold onL
  rw [live]
  simp only [run]

/-- An API call that stops takes the process with it; the state it leaves is kept
for the record. -/
theorem onL_error {α : Type} {s : Dll σ} {l l' : LuaState σ} {call : LuaM σ α} {e : LuaStop}
    (live : s.L = some l) (run : call l = .error e l') :
    onL call s = .error (.lua e) { s with L := some l' } := by
  unfold onL
  rw [live]
  simp only [run]

/-- Without a Lua state every API call is a use of NULL. -/
theorem onL_null {α : Type} {s : Dll σ} (closed : s.L = none) (call : LuaM σ α) :
    onL call s = .error .nullState s := by
  unfold onL
  rw [closed]

/-- The record grows by what the state says, and the state is otherwise the same. -/
@[simp] theorem run_emit (events : Dll σ → List Event) (s : Dll σ) :
    emit events s = .ok ⟨⟩ (s.note (events s)) := rfl

/-- A check of the stack is only noted: a failed one clears `balanced` for good. -/
@[simp] theorem run_check (ok : LuaState σ → Bool) (s : Dll σ) :
    check ok s = .ok ⟨⟩ { s with balanced := s.balanced && s.L.all ok } := rfl

@[simp] theorem run_setError (error : UChar) (s : Dll σ) :
    setError error s = .ok ⟨⟩ { s with gERROR := error } := rfl

@[simp] theorem run_setPOutput (i : Nat) (d : LuaNumber) (s : Dll σ) :
    setPOutput i d s = .ok ⟨⟩ { s with
      host := { s.host with pOutput := Function.update s.host.pOutput i d } } := rfl

@[simp] theorem run_setPUser (i : Nat) (d : LuaNumber) (s : Dll σ) :
    setPUser i d s = .ok ⟨⟩ { s with
      host := { s.host with pUser := Function.update s.host.pUser i d } } := rfl

@[simp] theorem run_setPString (i : Nat) (text : Bytes) (s : Dll σ) :
    setPString i text s = .ok ⟨⟩ { s with
      host := { s.host with pString := Function.update s.host.pString i text } } := rfl

/-- Inside the array, reading a marker cannot stop. -/
theorem run_inMarked {i : Nat} (inside : i < markerSize) (s : Dll σ) :
    inMarked i s = .ok (decide (s.gInStrMarker i ≠ 0)) s := by
  unfold inMarked
  rw [if_pos inside, Program.run_bind_ok (Program.run_get s)]
  rfl

theorem run_outMarked {i : Nat} (inside : i < markerSize) (s : Dll σ) :
    outMarked i s = .ok (decide (s.gOutStrMarker i ≠ 0)) s := by
  unfold outMarked
  rw [if_pos inside, Program.run_bind_ok (Program.run_get s)]
  rfl

/-! ### States with `L` open -/

/-- The state with this Lua state open. -/
def Dll.withL (s : Dll σ) (l : LuaState σ) : Dll σ := { s with L := some l }

/-- Putting the open Lua state back where it is changes nothing. -/
theorem Dll.withL_self {s : Dll σ} {l : LuaState σ} (live : s.L = some l) : s.withL l = s := by
  cases s
  subst live
  rfl

section WithL

variable {s : Dll σ} {l l' : LuaState σ}

@[simp] theorem Dll.withL_L : (s.withL l).L = some l := rfl

@[simp] theorem Dll.withL_withL : (s.withL l).withL l' = s.withL l' := rfl

@[simp] theorem Dll.withL_host : (s.withL l).host = s.host := rfl

@[simp] theorem Dll.withL_gNumInputs : (s.withL l).gNumInputs = s.gNumInputs := rfl

@[simp] theorem Dll.withL_gNumOutputs : (s.withL l).gNumOutputs = s.gNumOutputs := rfl

@[simp] theorem Dll.withL_gInStrMarker : (s.withL l).gInStrMarker = s.gInStrMarker := rfl

@[simp] theorem Dll.withL_gOutStrMarker : (s.withL l).gOutStrMarker = s.gOutStrMarker := rfl

@[simp] theorem Dll.withL_gERROR : (s.withL l).gERROR = s.gERROR := rfl

@[simp] theorem Dll.withL_balanced : (s.withL l).balanced = s.balanced := rfl

@[simp] theorem Dll.withL_epoch : (s.withL l).epoch = s.epoch := rfl

@[simp] theorem Dll.withL_trace : (s.withL l).trace = s.trace := rfl

/-- Noting events and replacing the Lua state commute. -/
@[simp] theorem Dll.note_withL (events : List Event) :
    (s.withL l).note events = (s.note events).withL l := rfl

/-- The form in which runs are computed: the state is written `s.withL l`, so that
an API call rewrites `l` and leaves `s` alone. -/
theorem run_onL {α : Type} {call : LuaM σ α} {a : α} (run : call l = .ok a l') :
    onL call (s.withL l) = .ok a (s.withL l') :=
  onL_ok rfl run

/-- A call on `L` ends as it does on the Lua state. -/
theorem ensures_onL {α : Type} {call : LuaM σ α} {Q : α → Dll σ → Prop} {A : Stop → Dll σ → Prop}
    (h : Program.Ensures call l (fun a l' => Q a (s.withL l'))
      fun e l' => A (.lua e) (s.withL l')) :
    Program.Ensures (onL call) (s.withL l) Q A := by
  cases run : call l with
  | ok a l' => exact .of_ok (run_onL run) (h.ok run)
  | error e l' => exact .of_error (onL_error rfl run) (h.error run)

theorem run_height : height (s.withL l) = .ok l.gettop (s.withL l) := rfl

/-- A check that passes changes nothing. -/
theorem run_check_pass {ok : LuaState σ → Bool} (pass : ok l = true) :
    check ok (s.withL l) = .ok ⟨⟩ (s.withL l) := by
  rw [run_check]
  simp [Dll.withL, pass]

end WithL

end Access

end ProfiLua
