import ProfiLua.Midi.Queue

/-!
The MIDI library as a map from ports to devices.

A script knows a device by its direction and its number. What `OpenMidiIn`,
`CloseMidiIn`, `GetMessage`, `MidiReceive` and the two functions for outputs do
is an operation on this map under one port (`Performed.refines`): which node of
a list holds the device, and what its neighbours are, does not matter. So two of
them for different ports can be done in either order (`operations_commute`),
although the lists differ then.
-/

namespace ProfiLua

open Program

/-! ### The map -/

/-- A direction and a device number. -/
inductive MidiPort where
  | input (n : UInt32)
  | output (n : UInt32)
deriving DecidableEq

/-- An open device: its handle and its pending events, the newest first. -/
structure Device where
  handle : Handle
  events : List MidiInEvent

def Input.device (d : Input) : Device := ⟨d.handle, d.events⟩

/-- The device found under a port. -/
def View.device (V : View) : MidiPort → Option Device
  | .input n => (V.input n).map Input.device
  | .output n => (V.output n).map fun x => ⟨x.2.handle, []⟩

section Lookup

variable {V V' : View} {n : UInt32}

/-- A new output is found under its number. -/
theorem View.output_cons {x : Nat × MidiOutDev} (outs : V'.outs = x :: V.outs) :
    V'.output = Function.update V.output x.2.number (some x) := by
  have update := firstWith_cons (fun x : Nat × MidiOutDev => x.2.number) (x := x) V.outs
  rw [← outs] at update
  exact update

/-- Nothing is found under the number of an output that was taken out. -/
theorem OutputAt.output_removed {before after : List (Nat × MidiOutDev)} {a : Nat}
    {dev : MidiOutDev} (h : OutputAt V n before a dev after) (distinct : V.Distinct)
    (outs : V'.outs = before ++ after) : V'.output = Function.update V.output n none := by
  have update := firstWith_removed (fun x : Nat × MidiOutDev => x.2.number)
    (h.split ▸ distinct.outs)
  rw [← outs, ← h.split, h.number] at update
  exact update

/-- An operation that leaves its own device as it is leaves all of them:
updating the map with what it holds changes nothing. -/
theorem View.device_kept {port : MidiPort} {found : Option Device} (h : V.device port = found) :
    V.device = Function.update V.device port found := by
  rw [← h, Function.update_eq_self]

/-- The devices are what the lists say. -/
theorem View.device_same (ins : V'.ins = V.ins) (outs : V'.outs = V.outs) :
    V'.device = V.device := by
  funext port
  cases port with
  | input k => simp [View.device, View.input, ins]
  | output k => simp [View.device, View.output, outs]

/-- Changing what is found under an input number changes the map there. -/
theorem View.device_input {d : Option Input} (update : V'.input = Function.update V.input n d)
    (outs : V'.outs = V.outs) :
    V'.device = Function.update V.device (.input n) (d.map Input.device) := by
  funext port
  cases port with
  | input k =>
      by_cases here : k = n
      · subst here
        simp [View.device, update]
      · have other : MidiPort.input k ≠ .input n := fun same => here (MidiPort.input.inj same)
        simp [View.device, update, Function.update_of_ne here, Function.update_of_ne other]
  | output k =>
      simp [View.device, View.output, outs]

/-- Changing what is found under an output number changes the map there. -/
theorem View.device_output {x : Option (Nat × MidiOutDev)}
    (update : V'.output = Function.update V.output n x) (ins : V'.ins = V.ins) :
    V'.device = Function.update V.device (.output n) (x.map fun x => ⟨x.2.handle, []⟩) := by
  funext port
  cases port with
  | input k =>
      simp [View.device, View.input, ins]
  | output k =>
      by_cases here : k = n
      · subst here
        simp [View.device, update]
      · have other : MidiPort.output k ≠ .output n := fun same => here (MidiPort.output.inj same)
        simp [View.device, update, Function.update_of_ne here, Function.update_of_ne other]

end Lookup

/-! ### The operations on it -/

/-- Opening a device: what is found there then, and the code returned. -/
def openDevice (o : MidiOutcomes) : Option Device → Option Device × Int
  | some d => (some d, -2)
  | none =>
      match o.opened with
      | none => (none, -3)
      | some handle => if o.malloc then (some ⟨handle, []⟩, 0) else (none, -4)

/-- Closing it. -/
def closeDevice : Option Device → Option Device × Int
  | some _ => (none, 0)
  | none => (none, -2)

/-- Taking the oldest event. -/
def takeEvent : Option Device → Option Device × Option MidiInEvent
  | some d => (some { d with events := d.events.dropLast }, d.events.getLast?)
  | none => (none, none)

/-- Putting an event there, if the message is handled and there is memory. -/
def putEvent (malloc : Bool) (msgpar : UInt32) (found : Option Device) : Option Device :=
  if handled (byteOf msgpar 0) = true ∧ malloc = true then
    found.map fun d => { d with events := eventOf msgpar :: d.events }
  else found

/-- What a call returned, a table by its entries. -/
def MidiReply.answer {σ : Type} : MidiReply σ → Option (TValue ⊕ Table)
  | .returned [.table t] heap => some (.inr (heap.table t))
  | .returned [v] _ => some (.inl v)
  | _ => none

/-- The answer that is a return code. -/
def codeAnswer (code : Int) : Option (TValue ⊕ Table) := some (.inl (.number (.fin code)))

/-- The answer that is an event, or nil. -/
def eventAnswer : Option MidiInEvent → Option (TValue ⊕ Table)
  | some ev => some (.inr (eventTable ev))
  | none => some (.inl .nil)

section Requests

variable {σ : Type} (E : LibEnv σ)

/-- The port an operation is for: its argument is a device number, or the driver
delivers a message for an instance. -/
def MidiRequest.port : MidiRequest σ → Option MidiPort
  | .call .openMidiIn [v] _ _ | .call .closeMidiIn [v] _ _ =>
      if v.isnumber E.toCLib then some (.input (v.device E)) else none
  | .call .getMessage [v] _ _ =>
      if v.isnumber E.toCLib then some (.input (v.queried E)) else none
  | .call .openMidiOut [v] _ _ | .call .closeMidiOut [v] _ _ =>
      if v.isnumber E.toCLib then some (.output (v.device E)) else none
  | .receive _ instdat _ => some (.input instdat)
  | _ => none

/-- What it does to the device there, and what it answers. -/
def MidiRequest.act : MidiRequest σ → Option Device → Option Device × Option (TValue ⊕ Table)
  | .call .openMidiIn _ _ o, found | .call .openMidiOut _ _ o, found =>
      ((openDevice o found).1, codeAnswer (openDevice o found).2)
  | .call .closeMidiIn _ _ _, found | .call .closeMidiOut _ _ _, found =>
      ((closeDevice found).1, codeAnswer (closeDevice found).2)
  | .call .getMessage _ _ _, found => ((takeEvent found).1, eventAnswer (takeEvent found).2)
  | .receive malloc _ msgpar, found => (putEvent malloc msgpar found, none)
  | _, found => (found, none)

/-- The operation on the map. -/
def MidiRequest.operation (request : MidiRequest σ) (port : MidiPort) :
    KeyedOp MidiPort (Option Device) (Option (TValue ⊕ Table)) := ⟨port, request.act⟩

end Requests

/-! ### The library performs them -/

section Steps

variable {o : MidiOutcomes} {n : UInt32} {V V' : View}

/-- Opening, seen from the device alone: what happens to it, and the code that
says so. The list and its addresses do not appear any more, only what is found
under the number. -/
theorem OpensIn.refines {code : Int} (h : OpensIn o n V code V') :
    V'.device = Function.update V.device (.input n) (openDevice o (V.device (.input n))).1 ∧
      code = (openDevice o (V.device (.input n))).2 := by
  cases h with
  | already found =>
      have here : V.device (.input n) = some _ := congrArg (Option.map Input.device) found
      rw [here]
      exact ⟨View.device_kept here, rfl⟩
  | refused absent refused =>
      have here : V.device (.input n) = none := congrArg (Option.map Input.device) absent
      simp only [here, openDevice, refused]
      exact ⟨View.device_kept here, trivial⟩
  | noMemory absent opened memory =>
      have here : V.device (.input n) = none := congrArg (Option.map Input.device) absent
      have same : View.device { V with driver := _ } = V.device := View.device_same rfl rfl
      rw [same]
      simp only [here, openDevice, opened, memory]
      exact ⟨View.device_kept here, rfl⟩
  | @opened handle a absent opened memory =>
      have here : V.device (.input n) = none := congrArg (Option.map Input.device) absent
      simp only [here, openDevice, opened, memory, if_true]
      exact ⟨View.device_input (View.input_cons (d := ⟨a, ⟨n, handle, none⟩, []⟩) rfl) rfl,
        trivial⟩

/-- Closing takes the device away, with its pending events. With distinct
numbers no other one of its number is left behind. -/
theorem ClosesIn.refines {code : Int} (h : ClosesIn o n V code V') (distinct : V.Distinct) :
    V'.device = Function.update V.device (.input n) (closeDevice (V.device (.input n))).1 ∧
      code = (closeDevice (V.device (.input n))).2 := by
  cases h with
  | absent absent =>
      have here : V.device (.input n) = none := congrArg (Option.map Input.device) absent
      rw [here]
      exact ⟨View.device_kept here, rfl⟩
  | closed at_ =>
      have here : V.device (.input n) = some _ := congrArg (Option.map Input.device) at_.found
      rw [here]
      exact ⟨View.device_input (at_.input_removed distinct rfl) rfl, rfl⟩

/-- Fetching takes the oldest event of the device, which the map holds at the
end of its list, and hands it out. -/
theorem Fetches.refines {ev : Option MidiInEvent} (h : Fetches n V ev V') :
    V'.device = Function.update V.device (.input n) (takeEvent (V.device (.input n))).1 ∧
      ev = (takeEvent (V.device (.input n))).2 := by
  cases h with
  | absent absent =>
      have here : V.device (.input n) = none := congrArg (Option.map Input.device) absent
      rw [here]
      exact ⟨View.device_kept here, rfl⟩
  | @nothing d found empty =>
      have here : V.device (.input n) = some d.device := congrArg (Option.map Input.device) found
      have events : d.device.events = [] := by simp [Input.device, Input.events, empty]
      have left : { d.device with events := [] } = d.device := by rw [← events]
      simp only [here, takeEvent, events, List.dropLast_nil, left]
      exact ⟨View.device_kept here, rfl⟩
  | @fetched before after d front p ev at_ queue =>
      have here : V.device (.input n) = some d.device :=
        congrArg (Option.map Input.device) at_.found
      have events : d.device.events = front.map Prod.snd ++ [ev] := by
        simp [Input.device, Input.events, queue]
      have number : (d.cut front).number = n := at_.number
      simp only [here, takeEvent, events, List.dropLast_concat, List.getLast?_concat]
      exact ⟨View.device_input (at_.input_replaced number rfl) rfl, trivial⟩

/-- A delivery adds an event to the device it is for, if there is one. What it
leaks otherwise is no device's. -/
theorem Receives.refines {malloc : Bool} {msgpar : UInt32} (h : Receives malloc n msgpar V V') :
    V'.device =
      Function.update V.device (.input n) (putEvent malloc msgpar (V.device (.input n))) := by
  cases h with
  | ignored other =>
      simp only [putEvent, other]
      exact View.device_kept rfl
  | noMemory memory =>
      simp only [putEvent, memory]
      exact View.device_kept (by simp)
  | @lost a accepted memory absent =>
      have here : V.device (.input n) = none := congrArg (Option.map Input.device) absent
      have same : View.device { V with leaked := a :: V.leaked } = V.device :=
        View.device_same rfl rfl
      have kept : putEvent malloc msgpar none = none := by simp [putEvent]
      rw [same, here, kept]
      exact View.device_kept here
  | @queued before after d a accepted memory at_ =>
      have here : V.device (.input n) = some d.device :=
        congrArg (Option.map Input.device) at_.found
      have number : (d.received a (eventOf msgpar)).number = n := at_.number
      simp only [here, putEvent, accepted, memory]
      exact View.device_input (at_.input_replaced number rfl) rfl

/-- The same for an output. The handle that is lost without memory is known to
the driver alone, so the map does not change. -/
theorem OpensOut.refines {code : Int} (h : OpensOut o n V code V') :
    V'.device = Function.update V.device (.output n) (openDevice o (V.device (.output n))).1 ∧
      code = (openDevice o (V.device (.output n))).2 := by
  cases h with
  | already found =>
      have here : V.device (.output n) = some _ := congrArg (Option.map _) found
      rw [here]
      exact ⟨View.device_kept here, rfl⟩
  | refused absent refused =>
      have here : V.device (.output n) = none := congrArg (Option.map _) absent
      simp only [here, openDevice, refused]
      exact ⟨View.device_kept here, trivial⟩
  | noMemory absent opened memory =>
      have here : V.device (.output n) = none := congrArg (Option.map _) absent
      have same : View.device { V with driver := _ } = V.device := View.device_same rfl rfl
      rw [same]
      simp only [here, openDevice, opened, memory]
      exact ⟨View.device_kept here, rfl⟩
  | @opened handle a absent opened memory =>
      have here : V.device (.output n) = none := congrArg (Option.map _) absent
      simp only [here, openDevice, opened, memory, if_true]
      exact ⟨View.device_output (View.output_cons (x := (a, ⟨n, handle⟩)) rfl) rfl, trivial⟩

/-- Closing an output, seen from the device alone. -/
theorem ClosesOut.refines {code : Int} (h : ClosesOut o n V code V') (distinct : V.Distinct) :
    V'.device = Function.update V.device (.output n) (closeDevice (V.device (.output n))).1 ∧
      code = (closeDevice (V.device (.output n))).2 := by
  cases h with
  | absent absent =>
      have here : V.device (.output n) = none := congrArg (Option.map _) absent
      rw [here]
      exact ⟨View.device_kept here, rfl⟩
  | closed at_ =>
      have here : V.device (.output n) = some _ := congrArg (Option.map _) at_.found
      rw [here]
      exact ⟨View.device_output (at_.output_removed distinct rfl) rfl, rfl⟩

end Steps

variable {σ : Type} {E : LibEnv σ} {V V' : View}

/-- A call with a device number for its one argument completes: only a wrong
number of arguments or a value that is no number could end it otherwise. -/
theorem Performed.call {f : MidiFunc} {v : TValue} {heap : Heap σ} {o : MidiOutcomes}
    {reply : MidiReply σ} (h : Performed E V (.call f [v] heap o) reply V') (arity : f.arity = 1)
    (number : v.isnumber E.toCLib = true) :
    ∃ answer heap', reply = .returned [answer] heap' ∧ Done E o heap V f [v] 1 answer heap' V' := by
  cases h with
  | raised arg bad =>
      rw [List.mem_singleton.mp (List.mem_of_getElem? arg), number] at bad
      cases bad
  | returned done => exact ⟨_, _, rfl, done⟩
  | yielded => cases arity

/-- The functions that work on one device, and the device they work on.
`GetMessage` reads its argument by the other conversion, so its device is named
apart. -/
theorem port_call {f : MidiFunc} {args : List TValue} {heap : Heap σ} {o : MidiOutcomes}
    {port : MidiPort} (addressed : (MidiRequest.call f args heap o).port E = some port) :
    ∃ v, args = [v] ∧ v.isnumber E.toCLib = true ∧
      ((f = .openMidiIn ∨ f = .closeMidiIn) ∧ port = .input (v.device E) ∨
        f = .getMessage ∧ port = .input (v.queried E) ∨
        (f = .openMidiOut ∨ f = .closeMidiOut) ∧ port = .output (v.device E)) := by
  have named : ∀ {v : TValue} {named : MidiPort},
      (if v.isnumber E.toCLib then some named else none) = some port →
      v.isnumber E.toCLib = true ∧ port = named := by
    intro v named addressed
    obtain ⟨number, same⟩ := Option.ite_none_right_eq_some.mp addressed
    exact ⟨number, (Option.some.inj same).symm⟩
  unfold MidiRequest.port at addressed
  split at addressed
  · rename_i same
    cases same
    obtain ⟨number, place⟩ := named addressed
    exact ⟨_, rfl, number, .inl ⟨.inl rfl, place⟩⟩
  · rename_i same
    cases same
    obtain ⟨number, place⟩ := named addressed
    exact ⟨_, rfl, number, .inl ⟨.inr rfl, place⟩⟩
  · rename_i same
    cases same
    obtain ⟨number, place⟩ := named addressed
    exact ⟨_, rfl, number, .inr (.inl ⟨rfl, place⟩)⟩
  · rename_i same
    cases same
    obtain ⟨number, place⟩ := named addressed
    exact ⟨_, rfl, number, .inr (.inr ⟨.inl rfl, place⟩)⟩
  · rename_i same
    cases same
    obtain ⟨number, place⟩ := named addressed
    exact ⟨_, rfl, number, .inr (.inr ⟨.inr rfl, place⟩)⟩
  · rename_i same
    cases same
  · cases addressed

/-- An operation for a port is the operation on the map under this port: the map
changes there and nowhere else, and the answer is read off what was there. This
connects the lists in memory with the abstract map. -/
theorem Performed.refines {request : MidiRequest σ} {reply : MidiReply σ}
    (h : Performed E V request reply V') (distinct : V.Distinct) {port : MidiPort}
    (addressed : request.port E = some port) :
    V'.device = (request.operation port).apply V.device ∧
      reply.answer = (request.operation port).answer V.device := by
  cases request with
  | receive malloc instdat msgpar =>
      cases addressed
      cases h with
      | received receives => exact ⟨receives.refines, rfl⟩
  | call f args heap o =>
      obtain ⟨v, rfl, number, place⟩ := port_call addressed
      have arity : f.arity = 1 := by
        rcases place with ⟨rfl | rfl, -⟩ | ⟨rfl, -⟩ | ⟨rfl | rfl, -⟩ <;> rfl
      obtain ⟨answer, heap', rfl, done⟩ := h.call arity number
      cases done with
      | miscounted count => exact absurd arity.symm count
      | asked asks => rcases place with ⟨rfl | rfl, -⟩ | ⟨rfl, -⟩ | ⟨rfl | rfl, -⟩ <;> cases asks
      | openMidiIn _ opens =>
          obtain rfl : port = .input (v.device E) := by simpa using place
          obtain ⟨map, rfl⟩ := opens.refines
          exact ⟨map, rfl⟩
      | closeMidiIn _ closes =>
          obtain rfl : port = .input (v.device E) := by simpa using place
          obtain ⟨map, rfl⟩ := closes.refines distinct
          exact ⟨map, rfl⟩
      | openMidiOut _ opens =>
          obtain rfl : port = .output (v.device E) := by simpa using place
          obtain ⟨map, rfl⟩ := opens.refines
          exact ⟨map, rfl⟩
      | closeMidiOut _ closes =>
          obtain rfl : port = .output (v.device E) := by simpa using place
          obtain ⟨map, rfl⟩ := closes.refines distinct
          exact ⟨map, rfl⟩
      | nothing _ fetches =>
          obtain rfl : port = .input (v.queried E) := by simpa using place
          obtain ⟨map, event⟩ := fetches.refines
          exact ⟨map, congrArg eventAnswer event⟩
      | message _ fetches =>
          obtain rfl : port = .input (v.queried E) := by simpa using place
          obtain ⟨map, event⟩ := fetches.refines
          refine ⟨map, Eq.trans ?_ (congrArg eventAnswer event)⟩
          simp [MidiReply.answer, eventAnswer]

/-! ### Either order -/

/-- The same operation, called from another Lua state. -/
def MidiRequest.calledFrom (heap : Heap σ) : MidiRequest σ → MidiRequest σ
  | .call f args _ o => .call f args heap o
  | request => request

/-- The port and the operation of a call do not depend on the Lua state it comes
from. -/
theorem port_calledFrom (heap : Heap σ) (request : MidiRequest σ) :
    (request.calledFrom heap).port E = request.port E := by
  cases request with
  | receive => rfl
  | call f args =>
      cases f with
      | openMidiIn | closeMidiIn | getMessage | openMidiOut | closeMidiOut =>
          rcases args with _ | ⟨v, _ | ⟨w, rest⟩⟩ <;> rfl
      | _ => rfl

theorem operation_calledFrom (heap : Heap σ) (request : MidiRequest σ) (port : MidiPort) :
    (request.calledFrom heap).operation port = request.operation port := by
  cases request with
  | receive => rfl
  | call f => cases f <;> rfl

/-- In these two states every device is found, or none, with the same handle and
the same events. -/
def SameDevices (m m' : Midi) : Prop :=
  ∃ V V', Shows m V ∧ Shows m' V' ∧ V.device = V'.device

/-- There `GetMidiInEntry` and `GetMidiOutEntry` find the same device numbers.
The addresses they return may differ: they depend on the order of the calls to
malloc. -/
theorem SameDevices.found {m m' : Midi} (same : SameDevices m m') (n : UInt32) :
    (∃ e e', getMidiInEntry n m = .ok e m ∧ getMidiInEntry n m' = .ok e' m' ∧
      e.isSome = e'.isSome) ∧
    ∃ e e', getMidiOutEntry n m = .ok e m ∧ getMidiOutEntry n m' = .ok e' m' ∧
      e.isSome = e'.isSome := by
  obtain ⟨V, V', shows, shows', devices⟩ := same
  constructor
  · refine ⟨_, _, run_getMidiInEntry shows n, run_getMidiInEntry shows' n, ?_⟩
    have here := congrArg Option.isSome (congrFun devices (.input n))
    simpa [View.device] using here
  · refine ⟨_, _, run_getMidiOutEntry shows n, run_getMidiOutEntry shows' n, ?_⟩
    have here := congrArg Option.isSome (congrFun devices (.output n))
    simpa [View.device] using here

/-- Two operations for two ports, one after the other. The second answers as if
the first had not been, since the map is as it was at its port. -/
theorem perform_both {m : Midi} (shows : Shows m V) (distinct : V.Distinct)
    {a b : MidiRequest σ} {p q : MidiPort} (first : a.port E = some p)
    (second : b.port E = some q) (apart : p ≠ q) :
    ∃ x y m' V', runAll (MidiRequest.perform E) [a, b] m = .ok [x, y] m' ∧ Shows m' V' ∧
      V'.device = (b.operation q).apply ((a.operation p).apply V.device) ∧
      x.answer = (a.operation p).answer V.device ∧
      y.answer = (b.operation q).answer V.device := by
  obtain ⟨x, m1, V1, run1, performed1, shows1⟩ := perform_outcome E shows a
  obtain ⟨map1, answer1⟩ := performed1.refines distinct first
  obtain ⟨y, m2, V2, run2, performed2, shows2⟩ := perform_outcome E shows1 b
  obtain ⟨map2, answer2⟩ := performed2.refines (performed1.distinct distinct) second
  refine ⟨x, y, m2, V2, ok_bind run1 (ok_bind (ok_bind run2 rfl) rfl), shows2, ?_, answer1, ?_⟩
  · rw [map2, map1]
  · rw [answer2, map1]
    exact KeyedOp.answer_apply _ (a.operation p) (b.operation q) apart

/-- No device number is in a list twice, whatever was called before. -/
theorem run_distinct (E : LibEnv σ) (requests : List (MidiRequest σ)) :
    Ensures (runAll (MidiRequest.perform E) requests) Midi.init
      (fun _ m => ∃ V, Shows m V ∧ V.Distinct) fun _ _ => False := by
  refine Ensures.runAll_history (C := fun _ _ => True)
    (I := fun _ m => ∃ V, Shows m V ∧ V.Distinct)
    (fun _ request m _ ⟨V, shows, distinct⟩ => ?_) (Along.trivially requests _) []
    ⟨_, shows_init, List.nodup_nil, List.nodup_nil⟩
  obtain ⟨reply, m', V', run, performed, shows'⟩ := perform_outcome E shows request
  exact .of_ok run ⟨V', shows', performed.distinct distinct⟩

/-- After every run, two operations for different ports return the same in
either order, and leave the same devices, from whatever Lua states they are
called. On the map they commute, because they update it at different keys. -/
theorem operations_commute (E : LibEnv σ) (requests : List (MidiRequest σ))
    {a b : MidiRequest σ} {p q : MidiPort} (first : a.port E = some p)
    (second : b.port E = some q) (apart : p ≠ q) (heapA heapB heapA' heapB' : Heap σ) :
    Ensures (runAll (MidiRequest.perform E) requests) Midi.init
      (fun _ m => ∃ x y y' x' m₁ m₂,
        runAll (MidiRequest.perform E) [a.calledFrom heapA, b.calledFrom heapB] m =
          .ok [x, y] m₁ ∧
        runAll (MidiRequest.perform E) [b.calledFrom heapB', a.calledFrom heapA'] m =
          .ok [y', x'] m₂ ∧
        x.answer = x'.answer ∧ y.answer = y'.answer ∧ SameDevices m₁ m₂)
      fun _ _ => False := by
  refine (run_distinct E requests).mono (fun _ m reached => ?_) fun _ _ h => h
  obtain ⟨V, shows, distinct⟩ := reached
  obtain ⟨x, y, m₁, V₁, run₁, shows₁, map₁, answerX, answerY⟩ := perform_both shows distinct
    ((port_calledFrom heapA a).trans first) ((port_calledFrom heapB b).trans second) apart
  obtain ⟨y', x', m₂, V₂, run₂, shows₂, map₂, answerY', answerX'⟩ := perform_both shows distinct
    ((port_calledFrom heapB' b).trans second) ((port_calledFrom heapA' a).trans first) apart.symm
  simp only [operation_calledFrom] at map₁ map₂ answerX answerX' answerY answerY'
  refine ⟨x, y, y', x', m₁, m₂, run₁, run₂, ?_, ?_, V₁, V₂, shows₁, shows₂, ?_⟩
  · rw [answerX, answerX']
  · rw [answerY, answerY']
  · rw [map₁, map₂]
    exact KeyedOp.commute _ (a.operation p) (b.operation q) apart

/-- Input 1 is closed while a message is read from input 2. -/
theorem operations_commute_closing :
    Ensures (runAll (MidiRequest.perform quietEnv)
        [.call .openMidiIn [.number (.ofNat 1)] quietHeap (smoothly 7),
          .call .openMidiIn [.number (.ofNat 2)] quietHeap (smoothly 8),
          .receive true 2 0x90]) Midi.init
      (fun _ m => ∃ x y y' x' m₁ m₂,
        runAll (MidiRequest.perform quietEnv)
          [.call .closeMidiIn [.number (.ofNat 1)] quietHeap (smoothly 7),
            .call .getMessage [.number (.ofNat 2)] quietHeap (smoothly 8)] m = .ok [x, y] m₁ ∧
        runAll (MidiRequest.perform quietEnv)
          [.call .getMessage [.number (.ofNat 2)] quietHeap (smoothly 8),
            .call .closeMidiIn [.number (.ofNat 1)] quietHeap (smoothly 7)] m =
          .ok [y', x'] m₂ ∧
        x.answer = x'.answer ∧ y.answer = y'.answer ∧ SameDevices m₁ m₂)
      fun _ _ => False :=
  operations_commute quietEnv _
    (a := .call .closeMidiIn [.number (.ofNat 1)] quietHeap (smoothly 7))
    (b := .call .getMessage [.number (.ofNat 2)] quietHeap (smoothly 8))
    (p := .input 1) (q := .input 2) (by decide +kernel) (by decide +kernel) (by decide)
    quietHeap quietHeap quietHeap quietHeap

end ProfiLua
