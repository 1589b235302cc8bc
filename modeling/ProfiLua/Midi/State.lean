import ProfiLua.Lua.Library
import ProfiLua.Program.Pool

/-!
The process-wide state of the MIDI library (`profimidi.c`): the lists of opened
devices in memory, and what the driver knows of them.

The driver is the Windows multimedia library. What it answers is an outcome of
each call; the state keeps the handles it has given out and not taken back, the
instance each input was opened for and whether it is started, and the short
messages it was sent.
-/

namespace ProfiLua

open Program

/-- `HMIDIIN` and `HMIDIOUT`; 0 is `NULL`. -/
abbrev Handle := Nat

/-- `NOTEON`, `NOTEOFF`, `CTRL` and `PITCH`. -/
def noteOn : UChar := 0x90

def noteOff : UChar := 0x80

def ctrl : UChar := 0xB0

def pitch : UChar := 0xE0

/-- `tMidiOutDev`, without its `next`. -/
structure MidiOutDev where
  number : UInt32
  handle : Handle
deriving DecidableEq

/-- `tMidiInEvent`, without its `next`. -/
structure MidiInEvent where
  event : UChar
  dat1 : UChar
  dat2 : UChar
deriving DecidableEq

/-- `tMidiInDev`, without its `next`. -/
structure MidiInDev where
  number : UInt32
  handle : Handle
  pMidiInEventList : Option Nat
deriving DecidableEq

/-- An input that is open in the driver. -/
structure InPort where
  handle : Handle
  instdat : UInt32
  started : Bool
deriving DecidableEq

structure Driver where
  inputs : List InPort
  outputs : List Handle
  sent : List (Handle × UInt32)
deriving DecidableEq

structure Midi where
  outDevs : Pool MidiOutDev
  inDevs : Pool MidiInDev
  events : Pool MidiInEvent
  pMidiOutDevList : Option Nat
  pMidiInDevList : Option Nat
  driver : Driver

/-- The library as it is loaded. -/
def Midi.init : Midi where
  outDevs := .empty
  inDevs := .empty
  events := .empty
  pMidiOutDevList := none
  pMidiInDevList := none
  driver := ⟨[], [], []⟩

/-- What the driver and the allocator answer during one call. No function asks
for the same thing twice. -/
structure MidiOutcomes where
  /-- The handle `midiInOpen` or `midiOutOpen` gives. -/
  opened : Option Handle
  /-- Whether `malloc` finds memory. -/
  malloc : Bool
  /-- Whether `midiInClose` or `midiOutClose` closes. -/
  closed : Bool
  /-- `midiInGetNumDevs` or `midiOutGetNumDevs`. -/
  numDevs : UInt32
  /-- The name in the capabilities of a device. -/
  caps : Option Bytes
deriving DecidableEq

/-- A call in which everything goes well, with this handle for an open. -/
def smoothly (handle : Handle) : MidiOutcomes := ⟨some handle, true, true, 0, none⟩

/-! ### Messages as words -/

/-- The word whose bytes are these, the lowest first. -/
def wordOf (b0 b1 b2 b3 : UChar) : UInt32 :=
  (b0.toNat + 256 * b1.toNat + 65536 * b2.toNat + 16777216 * b3.toNat).toUInt32

/-- Byte `i` of a word, as `cval[i]` reads it. -/
def byteOf (word : UInt32) (i : Nat) : UChar := (word.toNat / 256 ^ i).toUInt8

section Bytes

variable (b0 b1 b2 b3 : UChar)

/-- The bytes of a message word, the lowest first. -/
theorem wordOf_toNat :
    (wordOf b0 b1 b2 b3).toNat =
      b0.toNat + 256 * b1.toNat + 65536 * b2.toNat + 16777216 * b3.toNat := by
  have h0 := b0.toNat_lt
  have h1 := b1.toNat_lt
  have h2 := b2.toNat_lt
  have h3 := b3.toNat_lt
  simp only [wordOf]
  rw [Nat.toUInt32_eq, UInt32.toNat_ofNat_of_lt']
  simp only [UInt32.size]
  omega

/-- Reading the bytes of a word gives back what it was made of. -/
theorem byteOf_wordOf :
    byteOf (wordOf b0 b1 b2 b3) 0 = b0 ∧ byteOf (wordOf b0 b1 b2 b3) 1 = b1 ∧
      byteOf (wordOf b0 b1 b2 b3) 2 = b2 := by
  have h0 := b0.toNat_lt
  have h1 := b1.toNat_lt
  have h2 := b2.toNat_lt
  refine ⟨?_, ?_, ?_⟩
  all_goals
    apply UInt8.toNat_inj.mp
    simp only [byteOf, wordOf_toNat, Nat.toUInt8_eq, UInt8.toNat_ofNat']
    omega

end Bytes

/-! ### The driver's calls -/

/-- `midiOutOpen`. -/
def midiOutOpen (outcome : Option Handle) : WorldM Midi (Option Handle) := do
  match outcome with
  | none => return none
  | some handle =>
      modify fun m => { m with driver := { m.driver with outputs := handle :: m.driver.outputs } }
      return some handle

/-- `midiOutReset` ends the notes; nothing the state keeps depends on it. -/
def midiOutReset (_handle : Handle) : WorldM Midi PUnit := return

/-- `midiOutClose`. -/
def midiOutClose (handle : Handle) (closed : Bool) : WorldM Midi PUnit := do
  if closed then
    modify fun m =>
      { m with driver := { m.driver with outputs := m.driver.outputs.erase handle } }

/-- `midiOutShortMsg`. -/
def midiOutShortMsg (handle : Handle) (word : UInt32) : WorldM Midi PUnit :=
  modify fun m => { m with driver := { m.driver with sent := m.driver.sent ++ [(handle, word)] } }

/-- `midiInOpen` for the callback `MidiReceive`. -/
def midiInOpen (outcome : Option Handle) (instdat : UInt32) : WorldM Midi (Option Handle) := do
  match outcome with
  | none => return none
  | some handle =>
      modify fun m =>
        { m with driver := { m.driver with inputs := ⟨handle, instdat, false⟩ :: m.driver.inputs } }
      return some handle

/-- The inputs, with the ones that have this handle started or stopped. -/
def setStarted (handle : Handle) (started : Bool) (inputs : List InPort) : List InPort :=
  inputs.map fun p => if p.handle = handle then { p with started := started } else p

/-- `midiInStart` and `midiInReset`. -/
def midiInRun (handle : Handle) (started : Bool) : WorldM Midi PUnit :=
  modify fun m =>
    { m with driver := { m.driver with inputs := setStarted handle started m.driver.inputs } }

def midiInStart (handle : Handle) : WorldM Midi PUnit := midiInRun handle true

def midiInReset (handle : Handle) : WorldM Midi PUnit := midiInRun handle false

/-- `midiInClose`. -/
def midiInClose (handle : Handle) (closed : Bool) : WorldM Midi PUnit := do
  if closed then
    modify fun m =>
      { m with driver :=
          { m.driver with inputs := m.driver.inputs.eraseP fun p => p.handle = handle } }

end ProfiLua
