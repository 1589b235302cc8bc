import ProfiLua.Midi.State

/-!
The functions of the MIDI library (`profimidi.c`), in source order: the lists of
events and devices, sending and receiving a short message, and the functions
registered for Lua as `promidi`.

A function that takes a pointer takes an address or `none`. `MidiReceive` is
the driver's callback and not called from Lua; of its parameters it reads the
instance and the message word.
-/

namespace ProfiLua

open Program

/-- What a step in memory yields, unless it is a fault. -/
def orFault {ω α : Type} : Option α → WorldM ω α
  | some a => pure a
  | none => throw ()

theorem run_orFault {ω α : Type} {r : Option α} {a : α} (h : r = some a) (w : ω) :
    orFault r w = .ok a w := by
  rw [h]
  rfl

/-! ### Lists -/

/-- `AddMidiInEvent`: to the start of the device's list. -/
def addMidiInEvent (dev event : Option Nat) : WorldM Midi PUnit := do
  match dev, event with
  | some dev, some event =>
      let m ← get
      let d ← orFault (m.inDevs.cell dev)
      let e ← orFault (m.events.cell event)
      set { m with
        events := m.events.put event { e with next := d.val.pMidiInEventList }
        inDevs := m.inDevs.put dev { d with val := { d.val with pMidiInEventList := some event } } }
  | _, _ => return

/-- `// unchain event`: ends the list behind `pprev`. -/
def unchain (dev : Nat) (pprev : Option Nat) : WorldM Midi PUnit := do
  let m ← get
  match pprev with
  | none =>
      let d ← orFault (m.inDevs.cell dev)
      set { m with
        inDevs := m.inDevs.put dev { d with val := { d.val with pMidiInEventList := none } } }
  | some prev =>
      let q ← orFault (m.events.cell prev)
      set { m with events := m.events.put prev { q with next := none } }

/-- `free` of an event whose contents were passed on. -/
def freeEvent (p : Nat) : WorldM Midi MidiInEvent := do
  let m ← get
  let e ← orFault (m.events.cell p)
  let events ← orFault (m.events.free p)
  set { m with events := events }
  return e.val

/-- `RemoveMidiInEvent`: the last event of the list, or `none` for -1. A caller
that passes `NULL` for the event drops it. -/
def removeMidiInEvent (dev : Option Nat) : WorldM Midi (Option MidiInEvent) := do
  match dev with
  | none => return none
  | some dev =>
      let m ← get
      let d ← orFault (m.inDevs.cell dev)
      match d.val.pMidiInEventList with
      | none => return none
      | some first =>
          let (pprev, p) ← orFault (m.events.last m.events.bound none first)
          unchain dev pprev
          return some (← freeEvent p)

/-- `AddMidiOut`. -/
def addMidiOut (tmp : Option Nat) : WorldM Midi PUnit := do
  match tmp with
  | none => return
  | some tmp =>
      let m ← get
      let d ← orFault (m.outDevs.cell tmp)
      set { m with
        outDevs := m.outDevs.put tmp { d with next := m.pMidiOutDevList }
        pMidiOutDevList := some tmp }

/-- `AddMidiIn`. -/
def addMidiIn (tmp : Option Nat) : WorldM Midi PUnit := do
  match tmp with
  | none => return
  | some tmp =>
      let m ← get
      let d ← orFault (m.inDevs.cell tmp)
      set { m with
        inDevs := m.inDevs.put tmp { d with next := m.pMidiInDevList }
        pMidiInDevList := some tmp }

/-- `RemoveMidiOut`. -/
def removeMidiOut (tmp : Option Nat) : WorldM Midi PUnit := do
  match tmp with
  | none => return
  | some tmp =>
      let m ← get
      let (outDevs, head) ← orFault (m.outDevs.unlink m.pMidiOutDevList tmp)
      let outDevs ← orFault (outDevs.free tmp)
      set { m with outDevs := outDevs, pMidiOutDevList := head }

/-- `while( RemoveMidiInEvent(tmp,NULL) >= 0 )`. -/
def drain (tmp : Option Nat) : Nat → WorldM Midi PUnit
  | 0 => throw ()
  | fuel + 1 => do
      match ← removeMidiInEvent tmp with
      | none => return
      | some _ => drain tmp fuel

/-- `RemoveMidiIn`: with the device its events go. -/
def removeMidiIn (tmp : Option Nat) : WorldM Midi PUnit := do
  match tmp with
  | none => return
  | some tmp =>
      let m ← get
      let (inDevs, head) ← orFault (m.inDevs.unlink m.pMidiInDevList tmp)
      set { m with inDevs := inDevs, pMidiInDevList := head }
      drain (some tmp) (m.events.bound + 1)
      let m ← get
      let inDevs ← orFault (m.inDevs.free tmp)
      set { m with inDevs := inDevs }

/-- `GetMidiOutEntry`. -/
def getMidiOutEntry (num : UInt32) : WorldM Midi (Option Nat) := do
  let m ← get
  orFault (m.outDevs.find (fun d => d.number = num) m.outDevs.bound m.pMidiOutDevList)

/-- `GetMidiInEntry`. -/
def getMidiInEntry (num : UInt32) : WorldM Midi (Option Nat) := do
  let m ← get
  orFault (m.inDevs.find (fun d => d.number = num) m.inDevs.bound m.pMidiInDevList)

/-- The `Handle` of the device at an address. -/
def outHandle (dev : Nat) : WorldM Midi Handle := do
  return (← orFault ((← get).outDevs.cell dev)).val.handle

def inHandle (dev : Nat) : WorldM Midi Handle := do
  return (← orFault ((← get).inDevs.cell dev)).val.handle

/-! ### Messages -/

/-- `MidiSend`. -/
def midiSend (dev : Option Nat) (msg key vel : UChar) : WorldM Midi Int := do
  match dev with
  | none => return -1
  | some dev =>
      let handle ← outHandle dev
      if handle = 0 then return -1
      else
        midiOutShortMsg handle (wordOf msg (key &&& 0x7f) (vel &&& 0x7f) 0)
        return 0

/-- `malloc` of an event, filled in. -/
def mallocEvent (ok : Bool) (ev : MidiInEvent) : WorldM Midi (Option Nat) := do
  if ok then
    let m ← get
    set { m with events := m.events.alloc ⟨ev, none⟩ }
    return some m.events.bound
  else return none

/-- The messages `MidiReceive` handles. -/
def handled (status : UChar) : Bool :=
  status = noteOn || status = noteOff || status = ctrl || status = pitch

/-- `MidiReceive`. -/
def midiReceive (malloc : Bool) (instdat msgpar : UInt32) : WorldM Midi PUnit := do
  if handled (byteOf msgpar 0) then
    match ← mallocEvent malloc ⟨byteOf msgpar 0, byteOf msgpar 1, byteOf msgpar 2⟩ with
    | none => return
    | some ev => addMidiInEvent (← getMidiInEntry instdat) (some ev)

/-- A `tMidiOutDev` from `malloc`, filled in. -/
def mallocMidiOut (number : UInt32) (handle : Handle) : WorldM Midi Nat := do
  let m ← get
  set { m with outDevs := m.outDevs.alloc ⟨⟨number, handle⟩, none⟩ }
  return m.outDevs.bound

/-- A `tMidiInDev` from `malloc`, filled in. -/
def mallocMidiIn (number : UInt32) (handle : Handle) : WorldM Midi Nat := do
  let m ← get
  set { m with inDevs := m.inDevs.alloc ⟨⟨number, handle, none⟩, none⟩ }
  return m.inDevs.bound

/-! ### Functions for Lua -/

section Functions

variable {σ : Type} (E : LibEnv σ) (o : MidiOutcomes)

/-- `plOpenMidiOut`. -/
def plOpenMidiOut : LibM σ Midi Int := do
  if (← onLua luaGettop) ≠ 1 then
    onLua (luaPushnumber (.fin (-1)))
    return 1
  else if (← onWorld (getMidiOutEntry (← onLua (luaLCheckinteger E 1)).toUInt32)).isSome then
    onLua (luaPushnumber (.fin (-2)))
    return 1
  else
    let i := (← onLua (luaLCheckinteger E 1)).toUInt32
    match ← onWorld (midiOutOpen o.opened) with
    | none => onLua (luaPushnumber (.fin (-3)))
    | some handle =>
        if o.malloc then
          let tmp ← onWorld (mallocMidiOut i handle)
          onWorld (addMidiOut (some tmp))
          onLua (luaPushnumber (.fin 0))
        else onLua (luaPushnumber (.fin (-4)))
    return 1

/-- `plOpenMidiIn`. The instance passed on with the callback is the number. -/
def plOpenMidiIn : LibM σ Midi Int := do
  if (← onLua luaGettop) ≠ 1 then
    onLua (luaPushnumber (.fin (-1)))
    return 1
  else if (← onWorld (getMidiInEntry (← onLua (luaLCheckinteger E 1)).toUInt32)).isSome then
    onLua (luaPushnumber (.fin (-2)))
    return 1
  else
    let i := (← onLua (luaLCheckinteger E 1)).toUInt32
    match ← onWorld (midiInOpen o.opened i) with
    | none => onLua (luaPushnumber (.fin (-3)))
    | some handle =>
        if o.malloc then
          let tmp ← onWorld (mallocMidiIn i handle)
          onWorld (addMidiIn (some tmp))
          onWorld (midiInStart handle)
          onLua (luaPushnumber (.fin 0))
        else
          onWorld (midiInClose handle o.closed)
          onLua (luaPushnumber (.fin (-4)))
    return 1

/-- `plCloseMidiOut`. -/
def plCloseMidiOut : LibM σ Midi Int := do
  if (← onLua luaGettop) ≠ 1 then
    onLua (luaPushnumber (.fin (-1)))
    return 1
  else
    match ← onWorld (getMidiOutEntry (← onLua (luaLCheckinteger E 1)).toUInt32) with
    | some tmp =>
        let handle ← onWorld (outHandle tmp)
        onWorld (midiOutReset handle)
        onWorld (midiOutClose handle o.closed)
        onWorld (removeMidiOut (some tmp))
        onLua (luaPushnumber (.fin 0))
    | none => onLua (luaPushnumber (.fin (-2)))
    return 1

/-- `plCloseMidiIn`. -/
def plCloseMidiIn : LibM σ Midi Int := do
  if (← onLua luaGettop) ≠ 1 then
    onLua (luaPushnumber (.fin (-1)))
    return 1
  else
    match ← onWorld (getMidiInEntry (← onLua (luaLCheckinteger E 1)).toUInt32) with
    | some tmp =>
        let handle ← onWorld (inHandle tmp)
        onWorld (midiInReset handle)
        onWorld (midiInClose handle o.closed)
        onWorld (removeMidiIn (some tmp))
        onLua (luaPushnumber (.fin 0))
    | none => onLua (luaPushnumber (.fin (-2)))
    return 1

/-- `plPlayNote`, registered as `SendMessage`. C leaves open in which order the
arguments of `MidiSend` are evaluated; it shows in nothing but the number that the
error for a bad argument names. -/
def plPlayNote : LibM σ Midi Int := do
  if (← onLua luaGettop) ≠ 5 then
    onLua (luaPushnumber (.fin (-1)))
    return -1
  else
    match ← onWorld (getMidiOutEntry (← onLua (luaLCheckinteger E 1)).toUInt32) with
    | none =>
        onLua (luaPushnumber (.fin (-2)))
        return 1
    | some tmp =>
        let channel ← onLua (luaLCheckinteger E 2)
        if channel < 1 ∨ 16 < channel then
          onLua (luaPushnumber (.fin (-2)))
          return 1
        else
          let channel := channel - 1
          -- as written in the call; the project's compiler takes argument 4 first
          let type ← onLua (luaLCheckinteger E 5)
          let key ← onLua (luaLCheckinteger E 3)
          let vel ← onLua (luaLCheckinteger E 4)
          let _ ← onWorld (midiSend (some tmp)
            ((type &&& 0xf0).toUInt32.toUInt8 ||| channel.toUInt32.toUInt8)
            key.toUInt32.toUInt8 vel.toUInt32.toUInt8)
          onLua (luaPushnumber (.fin 0))
          return 1

/-- `plCountDevices`; `MIDIIN` is 0 and `MIDIOUT` is 1. -/
def plCountDevices : LibM σ Midi Int := do
  if (← onLua luaGettop) ≠ 1 then
    onLua (luaPushinteger 0)
    return 1
  else
    let which ← onLua (luaLCheckinteger E 1)
    if which = 0 ∨ which = 1 then onLua (luaPushnumber (.fin o.numDevs.toInt32.toInt))
    else onLua (luaPushinteger 0)
    return 1

/-- The body `plGetMidiOutName` and `plGetMidiInName` share; the driver is asked
for the capabilities of an output or of an input. -/
def plGetMidiName : LibM σ Midi Int := do
  if (← onLua luaGettop) ≠ 1 then
    onLua (push .nil)
    return 1
  else
    let _ ← onLua (luaLCheckinteger E 1)
    match o.caps with
    | none => onLua (push .nil)
    | some name => onLua (luaPushstring name)
    return 1

/-- `plGetMidiOutName`. -/
def plGetMidiOutName : LibM σ Midi Int := plGetMidiName E o

/-- `plGetMidiInName`. -/
def plGetMidiInName : LibM σ Midi Int := plGetMidiName E o

/-- `lua_pushinteger(L,i); lua_pushinteger(L,v); lua_settable(L,-3);`. -/
def setField (i v : Nat) : LuaM σ PUnit := do
  luaPushinteger i
  luaPushinteger v
  luaSettable E.toEnv (-3)

/-- `plGetEvent`, registered as `GetMessage`. -/
def plGetEvent : LibM σ Midi Int := do
  if (← onLua luaGettop) ≠ 1 then
    onLua (push .nil)
    return 1
  else
    let num := castUnsigned E.toCLib (← onLua (luaLChecknumber E 1))
    match ← onWorld (removeMidiInEvent (← onWorld (getMidiInEntry num))) with
    | some ev =>
        onLua (luaCreatetable 4)
        onLua (setField E 1 (ev.event &&& 0xf0).toNat)
        onLua (setField E 2 ((ev.event &&& 0x0f).toNat + 1))
        onLua (setField E 3 ev.dat1.toNat)
        onLua (setField E 4 ev.dat2.toNat)
    | none => onLua (push .nil)
    return 1

end Functions

/-- `midi_funcs`. -/
inductive MidiFunc where
  | openMidiOut
  | closeMidiOut
  | openMidiIn
  | closeMidiIn
  | getMidiOutName
  | getMidiInName
  | sendMessage
  | getMessage
  | countDevices
deriving DecidableEq

/-- The name in the table `promidi`. -/
def MidiFunc.name : MidiFunc → String
  | .openMidiOut => "OpenMidiOut"
  | .closeMidiOut => "CloseMidiOut"
  | .openMidiIn => "OpenMidiIn"
  | .closeMidiIn => "CloseMidiIn"
  | .getMidiOutName => "GetMidiOutName"
  | .getMidiInName => "GetMidiInName"
  | .sendMessage => "SendMessage"
  | .getMessage => "GetMessage"
  | .countDevices => "CountDevices"

/-- The function registered under the name. -/
def MidiFunc.body {σ : Type} (E : LibEnv σ) (o : MidiOutcomes) : MidiFunc → LibM σ Midi Int
  | .openMidiOut => plOpenMidiOut E o
  | .closeMidiOut => plCloseMidiOut E o
  | .openMidiIn => plOpenMidiIn E o
  | .closeMidiIn => plCloseMidiIn E o
  | .getMidiOutName => plGetMidiOutName E o
  | .getMidiInName => plGetMidiInName E o
  | .sendMessage => plPlayNote E
  | .getMessage => plGetEvent E
  | .countDevices => plCountDevices E o

end ProfiLua
