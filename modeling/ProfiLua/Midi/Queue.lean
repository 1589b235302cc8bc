import ProfiLua.Midi.Runs
import ProfiLua.Program.Keyed

/-!
MIDI input is a queue for each device.

For every device that is open after a run, what `GetMessage` handed out since
the device was opened, followed by what is still in its list, is what
`MidiReceive` put there, in the order of arrival (`input_fifo`). A device is open
when the last `OpenMidiIn` that succeeded for its number came after the last
`CloseMidiIn` that did. The invariant is about the history of the run; a step on
one device leaves the other devices' share of it alone.
-/

namespace ProfiLua

open Program

/-! ### One device among the others -/

section Inputs

variable {V V' : View} {n n' : UInt32} {before after : List Input} {d e : Input}

/-- No device number is opened twice. -/
structure View.Distinct (V : View) : Prop where
  ins : (V.ins.map Input.number).Nodup
  outs : (V.outs.map fun x => x.2.number).Nodup

/-- Changing one input changes what is found under its number only. -/
theorem InputAt.input_replaced (h : InputAt V n before d after) (same : e.number = n)
    (ins : V'.ins = before ++ e :: after) : V'.input = Function.update V.input n (some e) := by
  have first : ∀ c ∈ before, c.number ≠ d.number := h.number ▸ h.first
  have update : firstWith Input.number (before ++ e :: after) =
      Function.update (firstWith Input.number (before ++ d :: after)) d.number (some e) :=
    firstWith_replaced Input.number (same.trans h.number.symm) first
  rw [← ins, ← h.split, h.number] at update
  exact update

/-- Nothing is found under the number of an input that was taken out. -/
theorem InputAt.input_removed (h : InputAt V n before d after) (distinct : V.Distinct)
    (ins : V'.ins = before ++ after) : V'.input = Function.update V.input n none := by
  have update := firstWith_removed Input.number (h.split ▸ distinct.ins)
  rw [← ins, ← h.split, h.number] at update
  exact update

theorem View.input_cons (ins : V'.ins = d :: V.ins) :
    V'.input = Function.update V.input d.number (some d) := by
  have update := firstWith_cons Input.number (x := d) V.ins
  rw [← ins] at update
  exact update

/-- What is found after one number was given an input. -/
theorem View.input_updated {c : Option Input} (update : V'.input = Function.update V.input n c)
    (found : V'.input n' = some d) : n' = n ∧ c = some d ∨ n' ≠ n ∧ V.input n' = some d := by
  rw [update] at found
  by_cases here : n' = n
  · subst here
    rw [Function.update_self] at found
    exact .inl ⟨rfl, found⟩
  · rw [Function.update_of_ne here] at found
    exact .inr ⟨here, found⟩

/-- A number under which nothing is found may be opened: it is none of those in
the list. -/
theorem View.number_notMem (absent : V.input n = none) : n ∉ V.ins.map Input.number := by
  intro mem
  obtain ⟨c, inside, same⟩ := List.mem_map.mp mem
  have miss := List.find?_eq_none.mp absent c inside
  simp [same] at miss

/-- A number that is not found is not in the list. -/
theorem View.outNumber_notMem (absent : V.output n = none) :
    n ∉ V.outs.map fun x => x.2.number := by
  intro mem
  obtain ⟨c, inside, same⟩ := List.mem_map.mp mem
  have miss := List.find?_eq_none.mp absent c inside
  simp [same] at miss

end Inputs

variable {σ : Type}

/-- A step opens no number a second time. A device is added only where the
lookup found none, and every other step keeps the numbers or takes one away. -/
theorem Performed.distinct {E : LibEnv σ} {V V' : View} {request : MidiRequest σ}
    {reply : MidiReply σ} (h : Performed E V request reply V') (distinct : V.Distinct) :
    V'.Distinct := by
  obtain ⟨ins, outs⟩ := distinct
  have shorter : ∀ {β : Type} {before after : List β} {x : β} {f : β → UInt32},
      ((before ++ x :: after).map f).Nodup → ((before ++ after).map f).Nodup := by
    intro β before after x f whole
    simp only [List.map_append, List.map_cons] at whole ⊢
    exact (List.perm_middle.nodup_iff.mp whole).of_cons
  cases h with
  | raised => exact ⟨ins, outs⟩
  | yielded => exact ⟨ins, outs⟩
  | received receives =>
      cases receives with
      | queued _ _ at_ =>
          refine ⟨?_, outs⟩
          rw [at_.split] at ins
          simpa [Input.received, Input.number] using ins
      | _ => exact ⟨ins, outs⟩
  | returned done =>
      cases done with
      | miscounted => exact ⟨ins, outs⟩
      | asked => exact ⟨ins, outs⟩
      | openMidiOut _ opens =>
          cases opens with
          | opened absent => exact ⟨ins, List.nodup_cons.mpr ⟨View.outNumber_notMem absent, outs⟩⟩
          | _ => exact ⟨ins, outs⟩
      | closeMidiOut _ closes =>
          cases closes with
          | absent => exact ⟨ins, outs⟩
          | closed at_ => exact ⟨ins, shorter (at_.split ▸ outs)⟩
      | openMidiIn _ opens =>
          cases opens with
          | opened absent => exact ⟨List.nodup_cons.mpr ⟨View.number_notMem absent, ins⟩, outs⟩
          | _ => exact ⟨ins, outs⟩
      | closeMidiIn _ closes =>
          cases closes with
          | absent => exact ⟨ins, outs⟩
          | closed at_ => exact ⟨shorter (at_.split ▸ ins), outs⟩
      | sendMessage _ sends => cases sends <;> exact ⟨ins, outs⟩
      | nothing _ fetches => cases fetches <;> exact ⟨ins, outs⟩
      | message _ fetches =>
          cases fetches with
          | fetched at_ =>
              refine ⟨?_, outs⟩
              rw [at_.split] at ins
              simpa [Input.cut, Input.number] using ins

/-! ### Messages as tables -/

/-- A number as a byte. -/
def TValue.byte : TValue → UChar
  | .number (.fin q) => q.num.toNat.toUInt8
  | _ => 0

/-- The event a table `{type, channel, data1, data2}` stands for. -/
def messageOf (T : Table) : MidiInEvent where
  event := (T.node (.number (.ofNat 1))).byte + ((T.node (.number (.ofNat 2))).byte - 1)
  dat1 := (T.node (.number (.ofNat 3))).byte
  dat2 := (T.node (.number (.ofNat 4))).byte

@[simp] theorem byte_ofNat (n : Nat) : (TValue.number (.ofNat n)).byte = n.toUInt8 := by
  simp [TValue.byte, LuaNumber.ofNat]

/-- A status byte is its two nibbles. The table that `GetMessage` builds has
them apart, the type in its first entry and the channel, counted from 1, in its
second. -/
theorem nibbles (status : UChar) :
    (status &&& 0xf0).toNat.toUInt8 + (((status &&& 0x0f).toNat + 1).toUInt8 - 1) = status := by
  have all : ∀ i : Fin 256, ((UInt8.ofNat i &&& 0xf0).toNat.toUInt8 +
      (((UInt8.ofNat i &&& 0x0f).toNat + 1).toUInt8 - 1) = UInt8.ofNat i) := by decide +kernel
  have this := all ⟨status.toNat, status.toNat_lt⟩
  simpa using this

/-- `GetMessage` hands out the event it took: the four entries of the table give
back its three bytes. -/
theorem messageOf_eventTable (ev : MidiInEvent) : messageOf (eventTable ev) = ev := by
  have entry : ∀ i, 1 ≤ i → i ≤ 4 → (eventTable ev).node (.number (.ofNat i)) = _ := fun i pos le =>
    arrayTable_node _ pos le
  unfold messageOf
  rw [entry 1 (by decide) (by decide), entry 2 (by decide) (by decide),
    entry 3 (by decide) (by decide), entry 4 (by decide) (by decide)]
  simp only [byte_ofNat]
  rw [nibbles]
  simp

/-! ### The history of one device -/

/-- A successful `OpenMidiIn(n)`. -/
def opensInput (E : LibEnv σ) (n : UInt32) : MidiRequest σ × MidiReply σ → Bool
  | (.call .openMidiIn [v] _ _, .returned [.number (.fin code)] _) => code = 0 && v.device E = n
  | _ => false

/-- One step of `latestInput`. -/
def inputStep (E : LibEnv σ) (n : UInt32) (latest : Option Handle) :
    MidiRequest σ × MidiReply σ → Option Handle
  | (.call .openMidiIn [v] _ o, .returned [.number (.fin code)] _) =>
      if code = 0 ∧ v.device E = n then o.opened else latest
  | (.call .closeMidiIn [v] _ _, .returned [.number (.fin code)] _) =>
      if code = 0 ∧ v.device E = n then none else latest
  | _ => latest

/-- The handle of the latest successful `OpenMidiIn(n)`, unless `CloseMidiIn(n)`
succeeded since. -/
def latestInput (E : LibEnv σ) (n : UInt32) (history : List (MidiRequest σ × MidiReply σ)) :
    Option Handle :=
  history.foldl (inputStep E n) none

/-- What is open after one more step. -/
theorem latestInput_step (E : LibEnv σ) (n : UInt32)
    (history : List (MidiRequest σ × MidiReply σ)) (x : MidiRequest σ × MidiReply σ) :
    latestInput E n (history ++ [x]) = inputStep E n (latestInput E n history) x := by
  simp [latestInput]

/-- The event a `GetMessage(n)` hands out. -/
def fetchedFrom (E : LibEnv σ) (n : UInt32) : MidiRequest σ × MidiReply σ → Option MidiInEvent
  | (.call .getMessage [v] _ _, .returned [.table t] heap) =>
      if v.queried E = n then some (messageOf (heap.table t)) else none
  | _ => none

/-- The event `MidiReceive` allocates for instance `n`. -/
def queuedFor (n : UInt32) : MidiRequest σ × MidiReply σ → Option MidiInEvent
  | (.receive true instdat msgpar, _) =>
      if handled (byteOf msgpar 0) = true ∧ instdat = n then some (eventOf msgpar) else none
  | _ => none

/-- What a run yields after the last successful `OpenMidiIn(n)`. -/
def sinceOpened (E : LibEnv σ) (n : UInt32)
    (yields : MidiRequest σ × MidiReply σ → Option MidiInEvent)
    (history : List (MidiRequest σ × MidiReply σ)) : List MidiInEvent :=
  history.foldl (fun sofar x => if opensInput E n x then [] else sofar ++ (yields x).toList) []

/-- The history of a device starts anew when it is opened, and one more step
adds what it yields. Both sequences of the queue are instances of it. -/
theorem sinceOpened_step (E : LibEnv σ) (n : UInt32)
    (yields : MidiRequest σ × MidiReply σ → Option MidiInEvent)
    (history : List (MidiRequest σ × MidiReply σ)) (x : MidiRequest σ × MidiReply σ) :
    sinceOpened E n yields (history ++ [x]) =
      if opensInput E n x then [] else sinceOpened E n yields history ++ (yields x).toList := by
  simp [sinceOpened]

/-- A step leaves the device as it was and is not part of its history. -/
structure Apart (E : LibEnv σ) (n : UInt32) (x : MidiRequest σ × MidiReply σ) : Prop where
  opens : opensInput E n x = false
  fetched : fetchedFrom E n x = none
  queued : queuedFor n x = none

/-- What a step did to an input that is open afterwards: it is new, or what it
held, with what was queued, is what was fetched and what it holds now. -/
def InOrder (E : LibEnv σ) (n : UInt32) (V : View) (d' : Input)
    (x : MidiRequest σ × MidiReply σ) : Prop :=
  (opensInput E n x = true ∧ d'.events = []) ∨
    opensInput E n x = false ∧ ∃ d, V.input n = some d ∧
      d.events.reverse ++ (queuedFor n x).toList = (fetchedFrom E n x).toList ++ d'.events.reverse

section Steps

variable {E : LibEnv σ} {V V' : View} {n : UInt32} {d' : Input}

/-- A step that is about something else leaves a queue alone: nothing was queued
and nothing was fetched. -/
theorem Apart.inOrder {x : MidiRequest σ × MidiReply σ} (apart : Apart E n x)
    (found : V.input n = some d') : InOrder E n V d' x :=
  .inr ⟨apart.opens, d', found, by rw [apart.queued, apart.fetched]; simp⟩

/-- A delivery for this device goes to the end of its queue. One for another
device, one that is not handled, and one without memory are apart from it. -/
theorem Receives.inOrder {malloc : Bool} {instdat msgpar : UInt32}
    (h : Receives malloc instdat msgpar V V') (found : V'.input n = some d') :
    InOrder E n V d' (.receive malloc instdat msgpar, .received) := by
  cases h with
  | ignored other =>
      refine Apart.inOrder ⟨rfl, rfl, ?_⟩ found
      cases malloc <;> simp [queuedFor, other]
  | noMemory memory =>
      subst memory
      exact Apart.inOrder ⟨rfl, rfl, rfl⟩ found
  | lost accepted memory absent =>
      subst memory
      have same : V.input n = some d' := found
      -- a delivery that found no device was not for this one
      have other : ¬instdat = n := by
        rintro rfl
        rw [absent] at same
        cases same
      exact Apart.inOrder ⟨rfl, rfl, by simp [queuedFor, other]⟩ same
  | @queued before after d a accepted memory at_ =>
      subst memory
      have number : (d.received a (eventOf msgpar)).number = instdat := at_.number
      obtain ⟨rfl, same⟩ | ⟨elsewhere, found⟩ :=
        View.input_updated (at_.input_replaced number rfl) found
      · cases same
        refine .inr ⟨rfl, d, at_.found, ?_⟩
        simp [queuedFor, fetchedFrom, accepted, Input.events, Input.received]
      · refine Apart.inOrder ⟨rfl, rfl, ?_⟩ found
        simp [queuedFor, Ne.symm elsewhere]

/-- A call: opening starts an empty queue, fetching takes from its front, and
every other call is about something else. Closing ends the queue of its own
device; the others stay. -/
theorem Done.inOrder {heap heap' : Heap σ} {o : MidiOutcomes} {f : MidiFunc} {args : List TValue}
    {v : TValue} (h : Done E o heap V f args 1 v heap' V') (distinct : V.Distinct)
    (found : V'.input n = some d') :
    InOrder E n V d' (.call f args heap o, .returned [v] heap') := by
  cases h with
  | miscounted count returns pushes =>
      -- with a wrong number of arguments it is neither an opening nor a fetch
      refine Apart.inOrder ⟨?_, ?_, rfl⟩ found
      · unfold opensInput
        split
        · rename_i same
          cases same
          exact absurd rfl count
        · rfl
      · unfold fetchedFrom
        split
        · rename_i same
          cases same
          exact absurd rfl count
        · rfl
  | asked asks =>
      cases f with
      | getMidiOutName | getMidiInName | countDevices => exact Apart.inOrder ⟨rfl, rfl, rfl⟩ found
      | _ => cases asks
  | openMidiOut _ opens =>
      cases opens <;> exact Apart.inOrder ⟨rfl, rfl, rfl⟩ found
  | closeMidiOut _ closes => cases closes <;> exact Apart.inOrder ⟨rfl, rfl, rfl⟩ found
  | sendMessage _ sends => cases sends <;> exact Apart.inOrder ⟨rfl, rfl, rfl⟩ found
  | nothing _ fetches => cases fetches <;> exact Apart.inOrder ⟨rfl, rfl, rfl⟩ found
  | @openMidiIn w _ _ _ opens =>
      cases opens with
      | opened =>
          obtain ⟨rfl, same⟩ | ⟨elsewhere, found⟩ := View.input_updated (View.input_cons rfl) found
          · cases same
            exact .inl ⟨by simp [opensInput, Input.number], rfl⟩
          · have other : ¬w.device E = n := fun same => elsewhere same.symm
            exact Apart.inOrder ⟨by simp [opensInput, other], rfl, rfl⟩ found
      | already => exact Apart.inOrder ⟨by simp [opensInput], rfl, rfl⟩ found
      | refused => exact Apart.inOrder ⟨by simp [opensInput], rfl, rfl⟩ found
      | noMemory => exact Apart.inOrder ⟨by simp [opensInput], rfl, rfl⟩ found
  | closeMidiIn _ closes =>
      cases closes with
      | absent => exact Apart.inOrder ⟨rfl, rfl, rfl⟩ found
      | closed at_ =>
          obtain ⟨-, same⟩ | ⟨-, found⟩ := View.input_updated (at_.input_removed distinct rfl) found
          · cases same
          · exact Apart.inOrder ⟨rfl, rfl, rfl⟩ found
  | @message w ev _ _ fetches =>
      cases fetches with
      | @fetched before after d front p _ at_ queue =>
          have number : (d.cut front).number = w.queried E := at_.number
          obtain ⟨rfl, same⟩ | ⟨elsewhere, found⟩ :=
            View.input_updated (at_.input_replaced number rfl) found
          · cases same
            refine .inr ⟨rfl, d, at_.found, ?_⟩
            simp [queuedFor, fetchedFrom, Input.events, Input.cut, queue, messageOf_eventTable]
          · have other : ¬w.queried E = n := fun same => elsewhere same.symm
            exact Apart.inOrder ⟨rfl, by simp [fetchedFrom, other], rfl⟩ found

/-- Every step keeps the queues in order: what a device held and what was queued
for it is what was fetched from it and what it holds now. -/
theorem Performed.inOrder {request : MidiRequest σ} {reply : MidiReply σ}
    (h : Performed E V request reply V') (distinct : V.Distinct) (found : V'.input n = some d') :
    InOrder E n V d' (request, reply) := by
  cases h with
  | raised => exact Apart.inOrder ⟨by simp [opensInput], by simp [fetchedFrom], rfl⟩ found
  | yielded => exact Apart.inOrder ⟨rfl, rfl, rfl⟩ found
  | received receives => exact receives.inOrder found
  | returned done => exact done.inOrder distinct found

end Steps

/-! ### Which devices are open -/

section Opened

variable {E : LibEnv σ} {V V' : View}

/-- A call for one input that leaves its handle alone leaves all handles alone.
Deliveries and fetches are of this kind: they change a queue and nothing else.
-/
theorem InputAt.handles_replaced {n : UInt32} {before after : List Input} {d e : Input}
    (h : InputAt V n before d after) (same : e.number = n) (handle : e.handle = d.handle)
    (ins : V'.ins = before ++ e :: after) (k : UInt32) :
    (V'.input k).map Input.handle = (V.input k).map Input.handle := by
  rw [h.input_replaced same ins]
  by_cases here : k = n
  · rw [here, Function.update_self, h.found, Option.map_some, Option.map_some, handle]
  · rw [Function.update_of_ne here]

/-- The functions that only ask the driver neither open nor close an input. -/
theorem inputStep_asked (E : LibEnv σ) (n : UInt32) (latest : Option Handle) {f : MidiFunc}
    (asks : f.asks = true) (args : List TValue) (heap : Heap σ) (o : MidiOutcomes)
    (reply : MidiReply σ) : inputStep E n latest (.call f args heap o, reply) = latest := by
  cases f with
  | getMidiOutName | getMidiInName | countDevices => rfl
  | _ => cases asks

/-- With a wrong number of arguments nothing is opened or closed. -/
theorem inputStep_miscounted (E : LibEnv σ) (n : UInt32) (latest : Option Handle) {f : MidiFunc}
    {args : List TValue} (count : args.length ≠ f.arity) (heap : Heap σ) (o : MidiOutcomes)
    (reply : MidiReply σ) : inputStep E n latest (.call f args heap o, reply) = latest := by
  unfold inputStep
  split
  · rename_i same
    cases same
    exact absurd rfl count
  · rename_i same
    cases same
    exact absurd rfl count
  · rfl

/-- What a step does to the handle found under a number is what its reply says.
So the history of requests and replies alone tells which inputs are open. -/
theorem Performed.handles {request : MidiRequest σ} {reply : MidiReply σ}
    (h : Performed E V request reply V') (distinct : V.Distinct) (n : UInt32) :
    (V'.input n).map Input.handle =
      inputStep E n ((V.input n).map Input.handle) (request, reply) := by
  cases h with
  | raised => simp [inputStep]
  | yielded => rfl
  | @received malloc instdat msgpar _ receives =>
      cases receives with
      | @queued before after d a _ _ at_ =>
          have number : (d.received a (eventOf msgpar)).number = instdat := at_.number
          exact at_.handles_replaced number rfl rfl n
      | _ => rfl
  | returned done =>
      cases done with
      | miscounted count => exact (inputStep_miscounted E n _ count _ _ _).symm
      | asked asks => exact (inputStep_asked E n _ asks _ _ _ _).symm
      | openMidiOut _ opens => cases opens <;> rfl
      | closeMidiOut _ closes => cases closes <;> rfl
      | sendMessage _ sends => cases sends <;> rfl
      | nothing _ fetches => cases fetches <;> rfl
      | message _ fetches =>
          cases fetches with
          | @fetched before after d front _ _ at_ =>
              have number : (d.cut front).number = _ := at_.number
              exact at_.handles_replaced number rfl rfl n
      | @openMidiIn v _ _ _ opens =>
          cases opens with
          | @opened handle a absent opened =>
              rw [View.input_cons rfl]
              by_cases here : n = v.device E
              · subst here
                simp [inputStep, Input.number, Input.handle, opened]
              · have other : ¬v.device E = n := fun same => here same.symm
                simp [inputStep, Input.number, Function.update_of_ne here, other]
          | _ => simp [inputStep, View.input]
      | @closeMidiIn v _ _ _ closes =>
          cases closes with
          | absent => simp [inputStep]
          | closed at_ =>
              rw [at_.input_removed distinct rfl]
              by_cases here : n = v.device E
              · simp [inputStep, here]
              · have other : ¬v.device E = n := fun same => here same.symm
                rw [Function.update_of_ne here]
                simp [inputStep, other]

end Opened

/-! ### Runs -/

/-- The inputs found are the ones opened and not closed, and each holds, in order,
what was queued for it and not fetched. -/
structure Fifo (E : LibEnv σ) (history : List (MidiRequest σ × MidiReply σ)) (V : View) : Prop where
  distinct : V.Distinct
  opened : ∀ n, (V.input n).map Input.handle = latestInput E n history
  order : ∀ n d, V.input n = some d →
    sinceOpened E n (fetchedFrom E n) history ++ d.events.reverse =
      sinceOpened E n (queuedFor n) history

/-- One step of a run, with what has happened before as the history. The three
parts are kept by the three lemmas about a step: no number twice, the handles as
the replies say, the queues in order. -/
theorem Fifo.step {E : LibEnv σ} {V V' : View} {history : List (MidiRequest σ × MidiReply σ)}
    {request : MidiRequest σ} {reply : MidiReply σ} (fifo : Fifo E history V)
    (h : Performed E V request reply V') : Fifo E (history ++ [(request, reply)]) V' := by
  refine ⟨h.distinct fifo.distinct, fun n => ?_, fun n d' found => ?_⟩
  · rw [latestInput_step, ← fifo.opened n]
    exact h.handles fifo.distinct n
  rw [sinceOpened_step, sinceOpened_step]
  obtain ⟨opens, empty⟩ | ⟨same, d, before, order⟩ := h.inOrder fifo.distinct found
  · simp [opens, empty]
  · rw [same, ← fifo.order n d before]
    simp only [Bool.false_eq_true, if_false, List.append_assoc]
    rw [order]

/-- At the beginning nothing is open and nothing has been queued. -/
theorem fifo_init (E : LibEnv σ) : Fifo E [] View.init :=
  ⟨⟨List.nodup_nil, List.nodup_nil⟩, fun _ => rfl, fun _ _ found => by cases found⟩

theorem Input.queue_of_events {d : Input} (h : d.events = []) : d.queue = [] :=
  List.map_eq_nil_iff.mp h

/-- `GetMessage` returns nil exactly when the device is not open or nothing is
pending. An event is never handed out as nil, since its table is built after it
was taken. -/
theorem getMessage_nil_iff {E : LibEnv σ} {m : Midi} {V : View} (shows : Shows m V) {v : TValue}
    (number : v.isnumber E.toCLib = true) (heap : Heap σ) (o : MidiOutcomes) :
    (∃ heap' m', MidiRequest.perform E (.call .getMessage [v] heap o) m =
        .ok (.returned [.nil] heap') m') ↔
      V.input (v.queried E) = none ∨ ∃ d, V.input (v.queried E) = some d ∧ d.events = [] := by
  obtain ⟨reply, m', V', run, performed, _⟩ :=
    perform_outcome E shows (.call .getMessage [v] heap o)
  rw [run]
  cases performed with
  | raised arg bad =>
      have same := List.mem_singleton.mp (List.mem_of_getElem? arg)
      rw [same, number] at bad
      cases bad
  | returned done =>
      cases done with
      | miscounted count => exact absurd rfl count
      | asked asks => cases asks
      | nothing _ fetches =>
          refine iff_of_true ⟨_, _, rfl⟩ ?_
          cases fetches with
          | absent absent => exact .inl absent
          | nothing found empty => exact .inr ⟨_, found, by rw [Input.events, empty]; rfl⟩
      | message _ fetches =>
          refine iff_of_false ?_ ?_
          · rintro ⟨_, _, same⟩
            cases same
          · rintro (absent | ⟨d, found, empty⟩)
            · cases fetches with
              | fetched at_ =>
                  rw [at_.found] at absent
                  cases absent
            · cases fetches with
              | fetched at_ queue =>
                  rw [at_.found] at found
                  cases found
                  simp [Input.queue_of_events empty] at queue

/-- After every run, the inputs found are those whose last successful open was not
followed by a successful close. Each of them is a queue: what was fetched from it
since it was opened, and then what is pending, is what was queued for it. A `nil`
from `GetMessage` says that there is nothing. -/
theorem input_fifo (E : LibEnv σ) (requests : List (MidiRequest σ)) :
    Ensures (runAll (MidiRequest.perform E) requests) Midi.init
      (fun replies m => ∃ V, Shows m V ∧
        (∀ n, (V.input n).map Input.handle = latestInput E n (requests.zip replies)) ∧
        (∀ n d, V.input n = some d →
          sinceOpened E n (fetchedFrom E n) (requests.zip replies) ++ d.events.reverse =
            sinceOpened E n (queuedFor n) (requests.zip replies)) ∧
        ∀ v heap o, v.isnumber E.toCLib = true →
          ((∃ heap' m', MidiRequest.perform E (.call .getMessage [v] heap o) m =
              .ok (.returned [.nil] heap') m') ↔
            V.input (v.queried E) = none ∨
              ∃ d, V.input (v.queried E) = some d ∧ d.events = []))
      fun _ _ => False := by
  have run : Ensures (runAll (MidiRequest.perform E) requests) Midi.init
      (fun replies m => ∃ V, Shows m V ∧ Fifo E (requests.zip replies) V) fun _ _ => False := by
    refine Ensures.runAll_history (C := fun _ _ => True)
      (I := fun history m => ∃ V, Shows m V ∧ Fifo E history V)
      (fun history request m _ ⟨V, shows, fifo⟩ => ?_) (Along.trivially requests _) []
      ⟨_, shows_init, fifo_init E⟩
    obtain ⟨reply, m', V', done, performed, shows'⟩ := perform_outcome E shows request
    exact .of_ok done ⟨V', shows', fifo.step performed⟩
  refine run.mono (fun replies m ⟨V, shows, fifo⟩ => ⟨V, shows, fifo.opened, fifo.order, ?_⟩)
    fun _ _ h => h
  exact fun v heap o number => getMessage_nil_iff shows number heap o

/-- Device 1 is opened and gets two messages, one of which is read; device 2 is opened
and closed again. -/
def queueRun : List (MidiRequest Unit) :=
  [.call .openMidiIn [.number (.ofNat 1)] quietHeap (smoothly 7),
    .call .openMidiIn [.number (.ofNat 2)] quietHeap (smoothly 8),
    .receive true 1 0x90, .receive true 1 0x80,
    .call .getMessage [.number (.ofNat 1)] quietHeap (smoothly 0),
    .call .closeMidiIn [.number (.ofNat 2)] quietHeap (smoothly 0)]

/-- What was said about the two devices in this run. -/
theorem queueRun_history : Ensures (runAll (MidiRequest.perform quietEnv) queueRun) Midi.init
    (fun replies _ => latestInput quietEnv 1 (queueRun.zip replies) = some 7 ∧
      latestInput quietEnv 2 (queueRun.zip replies) = none ∧
      sinceOpened quietEnv 1 (queuedFor 1) (queueRun.zip replies) =
        [eventOf 0x90, eventOf 0x80] ∧
      sinceOpened quietEnv 1 (fetchedFrom quietEnv 1) (queueRun.zip replies) = [eventOf 0x90])
    fun _ _ => False := by
  decide +kernel

/-- So device 1 is open, with the second message pending, and device 2 is not. -/
theorem input_fifo_queueRun : Ensures (runAll (MidiRequest.perform quietEnv) queueRun) Midi.init
    (fun _ m => ∃ V d, Shows m V ∧ V.input 1 = some d ∧ d.handle = 7 ∧
      d.events = [eventOf 0x80] ∧ V.input 2 = none) fun _ _ => False := by
  apply ((input_fifo quietEnv queueRun).and queueRun_history).mono
  · rintro replies m ⟨⟨V, shows, opened, order, -⟩, open1, closed2, queued, fetched⟩
    have device1 := opened 1
    have device2 := opened 2
    rw [open1] at device1
    rw [closed2] at device2
    obtain ⟨d, found, handle⟩ := Option.map_eq_some_iff.mp device1
    have pending := order 1 d found
    rw [queued, fetched] at pending
    have events : d.events.reverse = [eventOf 0x80] := List.cons.inj pending |>.2
    refine ⟨V, d, shows, found, handle, ?_, Option.map_eq_none_iff.mp device2⟩
    exact List.reverse_eq_iff.mp events
  · rintro _ _ ⟨none, -⟩
    exact none

/-- Where a number is a device number, all functions read the same one. -/
theorem device_ofNat (E : LibEnv σ) (n : UInt32) :
    (TValue.number (.ofNat n.toNat)).device E = n ∧
      (TValue.number (.ofNat n.toNat)).queried E = n :=
  ⟨luaNumber2integer_ofNat E.casts n, castUnsigned_ofNat E.toCLib n⟩

end ProfiLua
