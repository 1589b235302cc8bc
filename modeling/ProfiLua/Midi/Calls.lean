import ProfiLua.Midi.View

/-!
What each function of the MIDI library does to the view.

`OpensOut`, `ClosesOut`, `OpensIn`, `ClosesIn`, `Sends`, `Fetches` and
`Receives` list the ways a call can end, guards included. `Done` collects those
of the functions called from Lua, with the count returned and the value pushed.
-/

namespace ProfiLua

open Program

/-! ### Ways to end -/

/-- The list `V.ins` around the input opened under a number. -/
structure InputAt (V : View) (n : UInt32) (before : List Input) (d : Input)
    (after : List Input) : Prop where
  split : V.ins = before ++ d :: after
  number : d.number = n
  first : ∀ c ∈ before, c.number ≠ n

/-- The list `V.outs` around the output opened under a number. -/
structure OutputAt (V : View) (n : UInt32) (before : List (Nat × MidiOutDev)) (a : Nat)
    (dev : MidiOutDev) (after : List (Nat × MidiOutDev)) : Prop where
  split : V.outs = before ++ (a, dev) :: after
  number : dev.number = n
  first : ∀ c ∈ before, c.2.number ≠ n

/-- An input that is found stands somewhere in the list, with no other of its number
before it. -/
theorem View.input_some {V : View} {n : UInt32} {d : Input} (found : V.input n = some d) :
    ∃ before after, InputAt V n before d after := by
  obtain ⟨number, before, after, split, first⟩ := List.find?_eq_some_iff_append.mp found
  exact ⟨before, after, split, by simpa using number, by simpa using first⟩

theorem View.output_some {V : View} {n : UInt32} {x : Nat × MidiOutDev}
    (found : V.output n = some x) : ∃ before after, OutputAt V n before x.1 x.2 after := by
  obtain ⟨number, before, after, split, first⟩ := List.find?_eq_some_iff_append.mp found
  exact ⟨before, after, split, by simpa using number, by simpa using first⟩

theorem InputAt.found {V : View} {n : UInt32} {before after : List Input} {d : Input}
    (h : InputAt V n before d after) : V.input n = some d := by
  refine List.find?_eq_some_iff_append.mpr ⟨by simpa using h.number, before, after, h.split, ?_⟩
  simpa using h.first

theorem OutputAt.found {V : View} {n : UInt32} {before after : List (Nat × MidiOutDev)} {a : Nat}
    {dev : MidiOutDev} (h : OutputAt V n before a dev after) : V.output n = some (a, dev) := by
  refine List.find?_eq_some_iff_append.mpr ⟨by simpa using h.number, before, after, h.split, ?_⟩
  simpa using h.first

/-- The driver after `midiOutOpen` gave a handle. -/
def Driver.openOut (D : Driver) (handle : Handle) : Driver :=
  { D with outputs := handle :: D.outputs }

/-- The driver after `midiOutClose`. -/
def Driver.closeOut (D : Driver) (handle : Handle) (closed : Bool) : Driver :=
  if closed then { D with outputs := D.outputs.erase handle } else D

/-- The driver after `midiInOpen` gave a handle. -/
def Driver.openIn (D : Driver) (handle : Handle) (instdat : UInt32) : Driver :=
  { D with inputs := ⟨handle, instdat, false⟩ :: D.inputs }

/-- The driver after `midiInStart` or `midiInReset`. -/
def Driver.run (D : Driver) (handle : Handle) (started : Bool) : Driver :=
  { D with inputs := setStarted handle started D.inputs }

/-- The driver after `midiInClose`. -/
def Driver.closeIn (D : Driver) (handle : Handle) (closed : Bool) : Driver :=
  if closed then { D with inputs := D.inputs.eraseP fun p => p.handle = handle } else D

inductive OpensOut (o : MidiOutcomes) (n : UInt32) (V : View) : Int → View → Prop where
  | already {x : Nat × MidiOutDev} (found : V.output n = some x) : OpensOut o n V (-2) V
  | refused (absent : V.output n = none) (refused : o.opened = none) : OpensOut o n V (-3) V
  | noMemory {handle : Handle} (absent : V.output n = none) (opened : o.opened = some handle)
      (memory : o.malloc = false) :
      OpensOut o n V (-4) { V with driver := V.driver.openOut handle }
  | opened {handle : Handle} {a : Nat} (absent : V.output n = none)
      (opened : o.opened = some handle) (memory : o.malloc = true) :
      OpensOut o n V 0
        { V with outs := (a, ⟨n, handle⟩) :: V.outs, driver := V.driver.openOut handle }

inductive ClosesOut (o : MidiOutcomes) (n : UInt32) (V : View) : Int → View → Prop where
  | absent (absent : V.output n = none) : ClosesOut o n V (-2) V
  | closed {before after : List (Nat × MidiOutDev)} {a : Nat} {dev : MidiOutDev}
      (at_ : OutputAt V n before a dev after) :
      ClosesOut o n V 0
        { V with outs := before ++ after, driver := V.driver.closeOut dev.handle o.closed }

inductive OpensIn (o : MidiOutcomes) (n : UInt32) (V : View) : Int → View → Prop where
  | already {d : Input} (found : V.input n = some d) : OpensIn o n V (-2) V
  | refused (absent : V.input n = none) (refused : o.opened = none) : OpensIn o n V (-3) V
  | noMemory {handle : Handle} (absent : V.input n = none) (opened : o.opened = some handle)
      (memory : o.malloc = false) :
      OpensIn o n V (-4) { V with driver := (V.driver.openIn handle n).closeIn handle o.closed }
  | opened {handle : Handle} {a : Nat} (absent : V.input n = none)
      (opened : o.opened = some handle) (memory : o.malloc = true) :
      OpensIn o n V 0
        { V with
          ins := ⟨a, ⟨n, handle, none⟩, []⟩ :: V.ins
          driver := (V.driver.openIn handle n).run handle true }

inductive ClosesIn (o : MidiOutcomes) (n : UInt32) (V : View) : Int → View → Prop where
  | absent (absent : V.input n = none) : ClosesIn o n V (-2) V
  | closed {before after : List Input} {d : Input} (at_ : InputAt V n before d after) :
      ClosesIn o n V 0
        { V with
          ins := before ++ after
          driver := (V.driver.run d.handle false).closeIn d.handle o.closed }

/-- `MidiSend` to an open output with a handle, or nothing. -/
inductive Sends (n : UInt32) (V : View) (channel type key vel : Int32) : Int → View → Prop where
  | absent (absent : V.output n = none) : Sends n V channel type key vel (-2) V
  | noChannel {x : Nat × MidiOutDev} (found : V.output n = some x)
      (bad : channel < 1 ∨ 16 < channel) : Sends n V channel type key vel (-2) V
  | noHandle {x : Nat × MidiOutDev} (found : V.output n = some x)
      (channels : ¬(channel < 1 ∨ 16 < channel)) (null : x.2.handle = 0) :
      Sends n V channel type key vel 0 V
  | sent {x : Nat × MidiOutDev} (found : V.output n = some x)
      (channels : ¬(channel < 1 ∨ 16 < channel)) (handle : x.2.handle ≠ 0) :
      Sends n V channel type key vel 0
        { V with driver := { V.driver with sent := V.driver.sent ++ [(x.2.handle,
          wordOf ((type &&& 0xf0).toUInt32.toUInt8 ||| (channel - 1).toUInt32.toUInt8)
            (key.toUInt32.toUInt8 &&& 0x7f) (vel.toUInt32.toUInt8 &&& 0x7f) 0)] } }

inductive Fetches (n : UInt32) (V : View) : Option MidiInEvent → View → Prop where
  | absent (absent : V.input n = none) : Fetches n V none V
  | nothing {d : Input} (found : V.input n = some d) (empty : d.queue = []) : Fetches n V none V
  | fetched {before after : List Input} {d : Input} {front : List (Nat × MidiInEvent)} {p : Nat}
      {ev : MidiInEvent} (at_ : InputAt V n before d after) (queue : d.queue = front ++ [(p, ev)]) :
      Fetches n V (some ev) { V with ins := before ++ d.cut front :: after }

/-- The event made from a message word. -/
def eventOf (msgpar : UInt32) : MidiInEvent := ⟨byteOf msgpar 0, byteOf msgpar 1, byteOf msgpar 2⟩

inductive Receives (malloc : Bool) (instdat msgpar : UInt32) (V : View) : View → Prop where
  | ignored (other : handled (byteOf msgpar 0) = false) : Receives malloc instdat msgpar V V
  | noMemory (memory : malloc = false) : Receives malloc instdat msgpar V V
  | queued {before after : List Input} {d : Input} {a : Nat}
      (accepted : handled (byteOf msgpar 0) = true) (memory : malloc = true)
      (at_ : InputAt V instdat before d after) :
      Receives malloc instdat msgpar V
        { V with ins := before ++ d.received a (eventOf msgpar) :: after }
  | lost {a : Nat} (accepted : handled (byteOf msgpar 0) = true) (memory : malloc = true)
      (absent : V.input instdat = none) :
      Receives malloc instdat msgpar V { V with leaked := a :: V.leaked }

/-! ### The driver -/

section Driver

variable (handle : Handle) (m : Midi)

theorem run_midiOutOpen : midiOutOpen (some handle) m =
    .ok (some handle) { m with driver := m.driver.openOut handle } := rfl

theorem run_midiOutClose (closed : Bool) : midiOutClose handle closed m =
    .ok ⟨⟩ { m with driver := m.driver.closeOut handle closed } := by
  cases closed <;> rfl

theorem run_midiInOpen (instdat : UInt32) : midiInOpen (some handle) instdat m =
    .ok (some handle) { m with driver := m.driver.openIn handle instdat } := rfl

theorem run_midiInRun (started : Bool) : midiInRun handle started m =
    .ok ⟨⟩ { m with driver := m.driver.run handle started } := rfl

theorem run_midiInClose (closed : Bool) : midiInClose handle closed m =
    .ok ⟨⟩ { m with driver := m.driver.closeIn handle closed } := by
  cases closed <;> rfl

end Driver

/-! ### The callback -/

/-- A delivery in a memory that shows lists ends in one of the four ways of
`Receives`, and the memory shows lists again. A message that is handled gets its
memory before its device is looked up, so without a device the memory is lost.
-/
theorem midiReceive_outcome {m : Midi} {V : View} (shows : Shows m V) (malloc : Bool)
    (instdat msgpar : UInt32) :
    ∃ m' V', midiReceive malloc instdat msgpar m = .ok ⟨⟩ m' ∧
      Receives malloc instdat msgpar V V' ∧ Shows m' V' := by
  unfold midiReceive
  cases accepted : handled (byteOf msgpar 0) with
  | false => exact ⟨m, V, rfl, .ignored accepted, shows⟩
  | true =>
      rw [if_pos rfl]
      cases malloc with
      | false => exact ⟨m, V, rfl, .noMemory rfl, shows⟩
      | true =>
          -- the lookup does not see the new event
          have look : getMidiInEntry instdat
              { m with events := m.events.alloc ⟨eventOf msgpar, none⟩ } =
              .ok ((V.input instdat).map Input.addr)
                { m with events := m.events.alloc ⟨eventOf msgpar, none⟩ } :=
            run_getMidiInEntry (shows.leak (eventOf msgpar)) instdat
          cases found : V.input instdat with
          | none =>
              rw [found] at look
              exact ⟨_, _, ok_bind rfl (ok_bind look rfl), .lost accepted rfl found,
                shows.leak (eventOf msgpar)⟩
          | some d =>
              rw [found] at look
              obtain ⟨before, after, at_⟩ := View.input_some found
              obtain ⟨m', added, shows'⟩ := run_receive shows at_.split (eventOf msgpar)
              exact ⟨m', _, ok_bind rfl (ok_bind look added), .queued accepted rfl at_, shows'⟩

/-! ### Functions for Lua -/

/-- The number of arguments a function wants. -/
def MidiFunc.arity : MidiFunc → Nat
  | .sendMessage => 5
  | _ => 1

/-- What it pushes when it gets another number of them. -/
def MidiFunc.refusal : MidiFunc → TValue
  | .openMidiOut | .closeMidiOut | .openMidiIn | .closeMidiIn | .sendMessage => .number (.fin (-1))
  | .getMidiOutName | .getMidiInName | .getMessage => .nil
  | .countDevices => .number (.ofNat 0)

/-- What it returns then. -/
def MidiFunc.refusalCount : MidiFunc → Int
  | .sendMessage => -1
  | _ => 1

/-- The functions that only ask the driver. -/
def MidiFunc.asks : MidiFunc → Bool
  | .getMidiOutName | .getMidiInName | .countDevices => true
  | _ => false

/-- The Lua table `{type, channel, data1, data2}`. -/
def messageTable (type channel data1 data2 : Nat) : Table :=
  arrayTable (fun
    | 1 => .number (.ofNat type)
    | 2 => .number (.ofNat channel)
    | 3 => .number (.ofNat data1)
    | _ => .number (.ofNat data2)) 4

/-- The table `GetMessage` makes of an event. -/
def eventTable (ev : MidiInEvent) : Table :=
  messageTable (ev.event &&& 0xf0).toNat ((ev.event &&& 0x0f).toNat + 1) ev.dat1.toNat ev.dat2.toNat

section Calls

variable {σ : Type} (E : LibEnv σ) (o : MidiOutcomes)

/-- The device number an argument gives, by `luaL_checkinteger`. -/
def TValue.device (v : TValue) : UInt32 := (v.int E).toUInt32

/-- The device number `GetMessage` reads. -/
def TValue.queried (v : TValue) : UInt32 := castUnsigned E.toCLib (v.num E.toCLib)

/-- A call that returns: the count, the value pushed, the heap and the view. -/
inductive Done (heap : Heap σ) (V : View) :
    MidiFunc → List TValue → Int → TValue → Heap σ → View → Prop where
  | miscounted {f : MidiFunc} {args : List TValue} {n : Int} {v : TValue}
      (count : args.length ≠ f.arity) (returns : n = f.refusalCount) (pushes : v = f.refusal) :
      Done heap V f args n v heap V
  | asked {f : MidiFunc} {args : List TValue} (asks : f.asks = true) (count : args.length = 1)
      (answer : TValue) : Done heap V f args 1 answer heap V
  | openMidiOut {v : TValue} {code : Int} {V' : View} (number : v.isnumber E.toCLib = true)
      (opens : OpensOut o (v.device E) V code V') :
      Done heap V .openMidiOut [v] 1 (.number (.fin code)) heap V'
  | closeMidiOut {v : TValue} {code : Int} {V' : View} (number : v.isnumber E.toCLib = true)
      (closes : ClosesOut o (v.device E) V code V') :
      Done heap V .closeMidiOut [v] 1 (.number (.fin code)) heap V'
  | openMidiIn {v : TValue} {code : Int} {V' : View} (number : v.isnumber E.toCLib = true)
      (opens : OpensIn o (v.device E) V code V') :
      Done heap V .openMidiIn [v] 1 (.number (.fin code)) heap V'
  | closeMidiIn {v : TValue} {code : Int} {V' : View} (number : v.isnumber E.toCLib = true)
      (closes : ClosesIn o (v.device E) V code V') :
      Done heap V .closeMidiIn [v] 1 (.number (.fin code)) heap V'
  | sendMessage {out channel key vel type : TValue} {code : Int} {V' : View}
      (number : out.isnumber E.toCLib = true)
      (sends : Sends (out.device E) V (channel.int E) (type.int E) (key.int E) (vel.int E)
        code V') :
      Done heap V .sendMessage [out, channel, key, vel, type] 1 (.number (.fin code)) heap V'
  | nothing {v : TValue} {V' : View} (number : v.isnumber E.toCLib = true)
      (fetches : Fetches (v.queried E) V none V') : Done heap V .getMessage [v] 1 .nil heap V'
  | message {v : TValue} {ev : MidiInEvent} {V' : View} (number : v.isnumber E.toCLib = true)
      (fetches : Fetches (v.queried E) V (some ev) V') :
      Done heap V .getMessage [v] 1 (.table heap.bound) (heap.alloc (eventTable ev)) V'

variable (func : TValue) (args : List TValue) (heap : Heap σ) (m : Midi) (V : View)

/-- A call of `f` returned in `c`, with one value on its frame. -/
def Completes (f : MidiFunc) (n : Int) (c : Calling σ Midi) : Prop :=
  ∃ v heap' V', c.L = ⟨v :: frame func args, heap'⟩ ∧ Shows c.world V' ∧
    Done E o heap V f args n v heap' V'

/-- A call raised an error about an argument that is no number, before it did
anything. -/
def Refused (e : LibStop) (c : Calling σ Midi) : Prop :=
  (∃ narg v, e = .lua (.argError narg) ∧ args[narg - 1]? = some v ∧
    v.isnumber E.toCLib = false) ∧ c.world = m

section Steps

variable {func args heap m V} {E} {w : Midi} {α : Type} {Q : Int → Calling σ Midi → Prop}
  {A : LibStop → Calling σ Midi → Prop}

/-- Every function begins by counting its arguments: it goes one way with the
right number of them and another with any other. -/
theorem ensures_counted {k : Int} {x y : LibM σ Midi Int}
    (wrong : (args.length : Int) ≠ k → Ensures x ⟨⟨frame func args, heap⟩, w⟩ Q A)
    (right : (args.length : Int) = k → Ensures y ⟨⟨frame func args, heap⟩, w⟩ Q A) :
    Ensures (onLua luaGettop >>= fun n => if n ≠ k then x else y)
      ⟨⟨frame func args, heap⟩, w⟩ Q A := by
  refine .step (run_onLua (run_luaGettop func args heap)) (.ite wrong fun same => ?_)
  exact right (not_not.mp same)

theorem ensures_pushed {call : LuaM σ PUnit} {n : Int} {l l' : LuaState σ}
    (run : call l = .ok ⟨⟩ l') (h : Q n ⟨l', w⟩) :
    Ensures (onLua call >>= fun _ => pure n) ⟨l, w⟩ Q A :=
  .step (run_onLua run) (.pure h)

/-- Reading an argument: the function goes on with its number, or raises an
error that names it. The world is the same either way. -/
theorem ensures_checkinteger {narg : Nat} {v : TValue} {f : Int32 → LibM σ Midi Int}
    (pos : 1 ≤ narg) (arg : args[narg - 1]? = some v)
    (next : v.isnumber E.toCLib = true →
      Ensures (f (v.int E)) ⟨⟨frame func args, heap⟩, w⟩ Q A)
    (raise : v.isnumber E.toCLib = false →
      A (.lua (.argError narg)) ⟨⟨frame func args, heap⟩, w⟩) :
    Ensures (onLua (luaLCheckinteger E narg) >>= f) ⟨⟨frame func args, heap⟩, w⟩ Q A := by
  cases number : v.isnumber E.toCLib with
  | true => exact .step (run_onLua (run_luaLCheckinteger E pos arg number)) (next number)
  | false =>
      rw [ensures_bind]
      exact .of_error (run_onLua_error (run_luaLCheckinteger_error E pos arg number)) (raise number)

theorem ensures_checknumber {narg : Nat} {v : TValue} {f : LuaNumber → LibM σ Midi Int}
    (pos : 1 ≤ narg) (arg : args[narg - 1]? = some v)
    (next : v.isnumber E.toCLib = true →
      Ensures (f (v.num E.toCLib)) ⟨⟨frame func args, heap⟩, w⟩ Q A)
    (raise : v.isnumber E.toCLib = false →
      A (.lua (.argError narg)) ⟨⟨frame func args, heap⟩, w⟩) :
    Ensures (onLua (luaLChecknumber E narg) >>= f) ⟨⟨frame func args, heap⟩, w⟩ Q A := by
  cases number : v.isnumber E.toCLib with
  | true => exact .step (run_onLua (run_luaLChecknumber E pos arg number)) (next number)
  | false =>
      rw [ensures_bind]
      exact .of_error (run_onLua_error (run_luaLChecknumber_error E pos arg number)) (raise number)

/-- An argument that is refused raises its error before the world was touched:
all functions read their arguments before they call the driver. -/
theorem refused {narg : Nat} {v : TValue} (arg : args[narg - 1]? = some v) (l : LuaState σ)
    (number : v.isnumber E.toCLib = false) : Refused E args m (.lua (.argError narg)) ⟨l, m⟩ :=
  ⟨⟨narg, v, rfl, arg, number⟩, rfl⟩

theorem one_arg (count : (args.length : Int) = 1) : ∃ v, args = [v] :=
  List.length_eq_one_iff.mp (by exact_mod_cast count)

end Steps

variable {E o func args heap m V}

/-- With another number of arguments a function pushes its refusal and does
nothing else. What it returns then is its own: all but `SendMessage` return 1.
-/
theorem Completes.miscounted (shows : Shows m V) {f : MidiFunc} (count : args.length ≠ f.arity) :
    Completes E o func args heap V f f.refusalCount ⟨⟨f.refusal :: frame func args, heap⟩, m⟩ :=
  ⟨_, _, V, rfl, shows, .miscounted count rfl rfl⟩

/-- `OpenMidiOut` over any lists: the device is known already, the driver gives
no handle, there is no memory for it and the handle is lost, or it is
registered. The argument is read once more for the driver, with the same number.
-/
theorem plOpenMidiOut_outcome (shows : Shows m V) :
    Ensures (plOpenMidiOut E o) ⟨⟨frame func args, heap⟩, m⟩
      (Completes E o func args heap V .openMidiOut) (Refused E args m) := by
  refine ensures_counted (fun wrong => ?_) fun right => ?_
  · exact ensures_pushed rfl (.miscounted shows (by exact_mod_cast wrong))
  obtain ⟨v, rfl⟩ := one_arg right
  have done : ∀ {code : Int} {m' : Midi} {V' : View}, v.isnumber E.toCLib = true →
      OpensOut o (v.device E) V code V' → Shows m' V' →
      Completes E o func [v] heap V .openMidiOut 1
        ⟨⟨.number (.fin code) :: frame func [v], heap⟩, m'⟩ := fun number opens shows' =>
    ⟨_, _, _, rfl, shows', .openMidiOut number opens⟩
  refine ensures_checkinteger (by decide) rfl (fun number => ?_) (refused rfl _)
  refine .step (run_onWorld (run_getMidiOutEntry shows _)) ?_
  cases found : V.output (v.int E).toUInt32 with
  | some x => exact ensures_pushed rfl (done number (.already found) shows)
  | none =>
      refine ensures_checkinteger (by decide) rfl (fun _ => ?_) (refused rfl _)
      simp only
      cases opened : o.opened with
      | none => exact .step (run_onWorld rfl) (ensures_pushed rfl
          (done number (.refused found opened) shows))
      | some handle =>
          have shows1 := shows.drive fun D => D.openOut handle
          refine .step (run_onWorld (run_midiOutOpen handle m))
            (.ite (fun memory => ?_) fun memory => ?_)
          · obtain ⟨m1, m2, malloc, added, shows2⟩ :=
              run_addMidiOut shows1 (v.int E).toUInt32 handle
            refine .step (run_onWorld malloc) (.step (run_onWorld added) (ensures_pushed rfl ?_))
            exact done number (.opened found opened memory) shows2
          -- the handle stays open in the driver, and no device has it
          · refine ensures_pushed rfl (done number (.noMemory found opened ?_) shows1)
            simpa using memory

/-- `OpenMidiIn` over any lists: the device is known already, the driver gives
no handle, or it is registered and started. Without memory for it, the handle is
closed again. -/
theorem plOpenMidiIn_outcome (shows : Shows m V) :
    Ensures (plOpenMidiIn E o) ⟨⟨frame func args, heap⟩, m⟩
      (Completes E o func args heap V .openMidiIn) (Refused E args m) := by
  refine ensures_counted (fun wrong => ?_) fun right => ?_
  · exact ensures_pushed rfl (.miscounted shows (by exact_mod_cast wrong))
  obtain ⟨v, rfl⟩ := one_arg right
  have done : ∀ {code : Int} {m' : Midi} {V' : View}, v.isnumber E.toCLib = true →
      OpensIn o (v.device E) V code V' → Shows m' V' →
      Completes E o func [v] heap V .openMidiIn 1
        ⟨⟨.number (.fin code) :: frame func [v], heap⟩, m'⟩ := fun number opens shows' =>
    ⟨_, _, _, rfl, shows', .openMidiIn number opens⟩
  refine ensures_checkinteger (by decide) rfl (fun number => ?_) (refused rfl _)
  refine .step (run_onWorld (run_getMidiInEntry shows _)) ?_
  cases found : V.input (v.int E).toUInt32 with
  | some d => exact ensures_pushed rfl (done number (.already found) shows)
  | none =>
      refine ensures_checkinteger (by decide) rfl (fun _ => ?_) (refused rfl _)
      simp only
      cases opened : o.opened with
      | none => exact .step (run_onWorld rfl) (ensures_pushed rfl
          (done number (.refused found opened) shows))
      | some handle =>
          have shows1 := shows.drive fun D => D.openIn handle (v.device E)
          refine .step (run_onWorld (run_midiInOpen handle m (v.device E)))
            (.ite (fun memory => ?_) fun memory => ?_)
          · obtain ⟨m1, m2, malloc, added, shows2⟩ := run_addMidiIn shows1 (v.device E) handle
            have shows3 := shows2.drive fun D => D.run handle true
            refine .step (run_onWorld malloc) (.step (run_onWorld added)
              (.step (run_onWorld (run_midiInRun handle m2 true)) (ensures_pushed rfl ?_)))
            exact done number (.opened found opened memory) shows3
          · have shows2 := shows1.drive fun D => D.closeIn handle o.closed
            refine .step (run_onWorld (run_midiInClose handle _ o.closed)) (ensures_pushed rfl ?_)
            exact done number (.noMemory found opened (by simpa using memory)) shows2

/-- `CloseMidiOut` over any lists: the device that is found is closed, taken off
the list and freed. The driver is asked first, and what it says is not looked
at. -/
theorem plCloseMidiOut_outcome (shows : Shows m V) :
    Ensures (plCloseMidiOut E o) ⟨⟨frame func args, heap⟩, m⟩
      (Completes E o func args heap V .closeMidiOut) (Refused E args m) := by
  refine ensures_counted (fun wrong => ?_) fun right => ?_
  · exact ensures_pushed rfl (.miscounted shows (by exact_mod_cast wrong))
  obtain ⟨v, rfl⟩ := one_arg right
  refine ensures_checkinteger (by decide) rfl (fun number => ?_) (refused rfl _)
  refine .step (run_onWorld (run_getMidiOutEntry shows _)) ?_
  cases found : V.output (v.int E).toUInt32 with
  | none => exact ensures_pushed rfl ⟨_, _, _, rfl, shows, .closeMidiOut number (.absent found)⟩
  | some x =>
      obtain ⟨before, after, at_⟩ := View.output_some found
      have mem : x ∈ V.outs := by simp [at_.split]
      have shows1 := shows.drive fun D => D.closeOut x.2.handle o.closed
      obtain ⟨m', removed, shows2⟩ := run_removeMidiOut shows1 at_.split
      refine .step (run_onWorld (run_outHandle shows mem)) (.step (run_onWorld rfl)
        (.step (run_onWorld (run_midiOutClose _ m o.closed)) (.step (run_onWorld removed) ?_)))
      exact ensures_pushed rfl ⟨_, _, _, rfl, shows2, .closeMidiOut number (.closed at_)⟩

/-- `CloseMidiIn` over any lists: the device that is found is stopped and
closed; then the events that are still pending are freed, and then the device.
-/
theorem plCloseMidiIn_outcome (shows : Shows m V) :
    Ensures (plCloseMidiIn E o) ⟨⟨frame func args, heap⟩, m⟩
      (Completes E o func args heap V .closeMidiIn) (Refused E args m) := by
  refine ensures_counted (fun wrong => ?_) fun right => ?_
  · exact ensures_pushed rfl (.miscounted shows (by exact_mod_cast wrong))
  obtain ⟨v, rfl⟩ := one_arg right
  refine ensures_checkinteger (by decide) rfl (fun number => ?_) (refused rfl _)
  refine .step (run_onWorld (run_getMidiInEntry shows _)) ?_
  cases found : V.input (v.int E).toUInt32 with
  | none => exact ensures_pushed rfl ⟨_, _, _, rfl, shows, .closeMidiIn number (.absent found)⟩
  | some d =>
      obtain ⟨before, after, at_⟩ := View.input_some found
      have mem : d ∈ V.ins := by simp [at_.split]
      have shows1 := (shows.drive fun D => D.run d.handle false).drive
        fun D => D.closeIn d.handle o.closed
      obtain ⟨m', removed, shows2⟩ := run_removeMidiIn shows1 at_.split
      refine .step (run_onWorld (run_inHandle shows mem))
        (.step (run_onWorld (run_midiInRun d.handle m false))
          (.step (run_onWorld (run_midiInClose d.handle _ o.closed))
            (.step (run_onWorld removed) ?_)))
      exact ensures_pushed rfl ⟨_, _, _, rfl, shows2, .closeMidiIn number (.closed at_)⟩

theorem five_args (count : (args.length : Int) = 5) : ∃ a b c d e, args = [a, b, c, d, e] := by
  match args, count with
  | [a, b, c, d, e], _ => exact ⟨a, b, c, d, e, rfl⟩

/-- `SendMessage` sends at most one message and changes no list. It pushes 0
even where the device has no handle and nothing is sent. -/
theorem plPlayNote_outcome (shows : Shows m V) :
    Ensures (plPlayNote E) ⟨⟨frame func args, heap⟩, m⟩
      (Completes E o func args heap V .sendMessage) (Refused E args m) := by
  refine ensures_counted (fun wrong => ?_) fun right => ?_
  · exact ensures_pushed rfl (.miscounted shows (by exact_mod_cast wrong))
  obtain ⟨out, channel, key, vel, type, rfl⟩ := five_args right
  refine ensures_checkinteger (by decide) rfl (fun number => ?_) (refused rfl _)
  refine .step (run_onWorld (run_getMidiOutEntry shows _)) ?_
  cases found : V.output (out.int E).toUInt32 with
  | none => exact ensures_pushed rfl ⟨_, _, _, rfl, shows, .sendMessage number (.absent found)⟩
  | some x =>
      obtain ⟨before, after, at_⟩ := View.output_some found
      have mem : x ∈ V.outs := by simp [at_.split]
      refine ensures_checkinteger (by decide) rfl (fun _ => ?_) (refused rfl _)
      refine .ite (fun bad => ?_) fun channels => ?_
      · exact ensures_pushed rfl
          ⟨_, _, _, rfl, shows, .sendMessage number (.noChannel found bad)⟩
      simp only
      refine ensures_checkinteger (by decide) rfl (fun _ => ?_) (refused rfl _)
      refine ensures_checkinteger (by decide) rfl (fun _ => ?_) (refused rfl _)
      refine ensures_checkinteger (by decide) rfl (fun _ => ?_) (refused rfl _)
      have look := run_outHandle shows mem
      by_cases null : x.2.handle = 0
      · refine .step (run_onWorld (ok_bind look (ok_ite_true null rfl))) ?_
        exact ensures_pushed rfl
          ⟨_, _, _, rfl, shows, .sendMessage number (.noHandle found channels null)⟩
      · refine .step (run_onWorld (ok_bind look (ok_ite_false null (ok_bind rfl rfl)))) ?_
        refine ensures_pushed rfl
          ⟨_, _, _, rfl, ?_, .sendMessage number (.sent found channels null)⟩
        exact shows.drive fun D => { D with sent := D.sent ++ [(x.2.handle, _)] }

/-- The event table is built entry by entry. -/
theorem run_setField {T : Table} (plain : T.metatable = false) (i v : Nat)
    (rest : List TValue) :
    setField E i v ⟨.table heap.bound :: rest, heap.alloc T⟩ =
      .ok ⟨⟩ ⟨.table heap.bound :: rest,
        heap.alloc (T.store (.number (.ofNat i)) (.number (.ofNat v)))⟩ :=
  ok_bind rfl (ok_bind rfl (run_luaSettable E.toEnv plain))

/-- `GetMessage` takes the oldest event off the list and builds its table, or
pushes `nil`. The device number is cast from a double here, where all other
functions read an integer. -/
theorem plGetEvent_outcome (shows : Shows m V) :
    Ensures (plGetEvent E) ⟨⟨frame func args, heap⟩, m⟩
      (Completes E o func args heap V .getMessage) (Refused E args m) := by
  refine ensures_counted (fun wrong => ?_) fun right => ?_
  · exact ensures_pushed rfl (.miscounted shows (by exact_mod_cast wrong))
  obtain ⟨v, rfl⟩ := one_arg right
  refine ensures_checknumber (by decide) rfl (fun number => ?_) (refused rfl _)
  simp only
  refine .step (run_onWorld (run_getMidiInEntry shows (v.queried E))) ?_
  cases found : V.input (v.queried E) with
  | none =>
      refine .step (run_onWorld rfl) (ensures_pushed rfl ?_)
      exact ⟨_, _, _, rfl, shows, .nothing number (.absent found)⟩
  | some d =>
      obtain ⟨before, after, at_⟩ := View.input_some found
      have mem : d ∈ V.ins := by simp [at_.split]
      obtain ⟨next, cell⟩ := shows.inCell mem
      -- new events are added at the head, so the oldest one is the last
      obtain queue | ⟨front, ⟨p, ev⟩, queue⟩ := List.eq_nil_or_concat' d.queue
      · have empty := Chain.nil_iff.mp (queue ▸ shows.queues d mem)
        refine .step (run_onWorld (run_removeMidiInEvent_nil cell empty)) (ensures_pushed rfl ?_)
        exact ⟨_, _, _, rfl, shows, .nothing number (.nothing found queue)⟩
      · obtain ⟨m', taken, shows'⟩ := run_fetch shows at_.split queue
        refine .step (run_onWorld taken) ?_
        refine .step (run_onLua (run_luaCreatetable (by decide))) ?_
        refine .step (run_onLua (run_setField rfl _ _ _))
          (.step (run_onLua (run_setField rfl _ _ _))
          (.step (run_onLua (run_setField rfl _ _ _)) (ensures_pushed (run_setField rfl _ _ _) ?_)))
        exact ⟨_, _, _, rfl, shows', .message number (.fetched at_ queue)⟩

/-- `CountDevices` reports what the driver counts on the side its argument
names, and 0 for an argument that names neither. -/
theorem plCountDevices_outcome (shows : Shows m V) :
    Ensures (plCountDevices E o) ⟨⟨frame func args, heap⟩, m⟩
      (Completes E o func args heap V .countDevices) (Refused E args m) := by
  refine ensures_counted (fun wrong => ?_) fun right => ?_
  · exact ensures_pushed rfl (.miscounted shows (by exact_mod_cast wrong))
  obtain ⟨v, rfl⟩ := one_arg right
  refine ensures_checkinteger (by decide) rfl (fun _ => ?_) (refused rfl _)
  refine .ite (fun _ => ?_) fun _ => ?_
  · exact ensures_pushed rfl ⟨_, _, V, rfl, shows, .asked rfl rfl _⟩
  · exact ensures_pushed rfl ⟨_, _, V, rfl, shows, .asked rfl rfl _⟩

/-- Both name functions push what the driver answers, or nil where it does not
know the device. -/
theorem plGetMidiName_outcome (shows : Shows m V) {f : MidiFunc} (asks : f.asks = true)
    (arity : f.arity = 1) (refusal : f.refusal = .nil) (count : f.refusalCount = 1) :
    Ensures (plGetMidiName E o) ⟨⟨frame func args, heap⟩, m⟩
      (Completes E o func args heap V f) (Refused E args m) := by
  refine ensures_counted (fun wrong => ?_) fun right => ?_
  · refine ensures_pushed rfl ?_
    have missing : Completes E o func args heap V f f.refusalCount
        ⟨⟨f.refusal :: frame func args, heap⟩, m⟩ :=
      .miscounted shows (by rw [arity]; exact_mod_cast wrong)
    rw [refusal, count] at missing
    exact missing
  obtain ⟨v, rfl⟩ := one_arg right
  refine ensures_checkinteger (by decide) rfl (fun _ => ?_) (refused rfl _)
  cases o.caps with
  | none => exact ensures_pushed rfl ⟨_, _, V, rfl, shows, .asked asks rfl _⟩
  | some name => exact ensures_pushed rfl ⟨_, _, V, rfl, shows, .asked asks rfl _⟩

/-- Every function of the library either completes, with one value pushed, or
raises an argument error before it has done anything. The lists of the view are
lists again afterwards. -/
theorem body_outcome (shows : Shows m V) (f : MidiFunc) :
    Ensures (f.body E o) ⟨⟨frame func args, heap⟩, m⟩ (Completes E o func args heap V f)
      (Refused E args m) := by
  cases f with
  | openMidiOut => exact plOpenMidiOut_outcome shows
  | closeMidiOut => exact plCloseMidiOut_outcome shows
  | openMidiIn => exact plOpenMidiIn_outcome shows
  | closeMidiIn => exact plCloseMidiIn_outcome shows
  | getMidiOutName => exact plGetMidiName_outcome shows rfl rfl rfl rfl
  | getMidiInName => exact plGetMidiName_outcome shows rfl rfl rfl rfl
  | sendMessage => exact plPlayNote_outcome shows
  | getMessage => exact plGetEvent_outcome shows
  | countDevices => exact plCountDevices_outcome shows

end Calls

end ProfiLua
