import ProfiLua.Midi.Queue

/-!
The device lists and the driver.

Every input in the list is open and started in the driver under its handle and
number, and no other is (`inputs_accounted`); the cells allocated are those of
the list and of its event lists. For outputs the same holds of runs in which no
`malloc` fails behind a successful `midiOutOpen` (`outputs_registered`): there
the handle is lost.

Both are about runs in which a handle the driver gives is not one of those that
are open, a close closes, and the driver delivers messages only for inputs that
are started.
-/

namespace ProfiLua

open Program

variable {σ : Type}

/-! ### Inputs -/

/-- What the driver keeps to, for inputs. -/
def InputsBehave (m : Midi) : MidiRequest σ → Prop
  | .call f _ _ o => o.closed = true ∧
      (f = .openMidiIn → ∀ handle, o.opened = some handle →
        handle ∉ m.driver.inputs.map InPort.handle)
  | .receive _ instdat _ => ∃ p ∈ m.driver.inputs, p.instdat = instdat ∧ p.started = true

/-- Whether a handle an open may give is free can be decided. -/
instance {opened : Option Handle} {p : Handle → Prop} [DecidablePred p] :
    Decidable (∀ handle, opened = some handle → p handle) :=
  match opened with
  | none => .isTrue fun _ same => by cases same
  | some handle => decidable_of_iff (p handle)
      ⟨fun now _ same => Option.some.inj same ▸ now, fun all => all handle rfl⟩

instance (m : Midi) : ∀ request : MidiRequest σ, Decidable (InputsBehave m request)
  | .call f _ _ o => inferInstanceAs (Decidable (o.closed = true ∧ (f = .openMidiIn → _)))
  | .receive _ _ _ => inferInstanceAs (Decidable (∃ p ∈ m.driver.inputs, _))

/-- How the driver knows an opened input. -/
def Input.port (d : Input) : InPort := ⟨d.handle, d.number, true⟩

/-- The inputs of the list and of the driver are the same, and every event is in
the list of one of them. -/
structure InputsAccounted (V : View) : Prop where
  distinct : V.Distinct
  ports : V.driver.inputs = V.ins.map Input.port
  handles : (V.ins.map Input.handle).Nodup
  noLeak : V.leaked = []

/-- Stopping an input that is in the list and closing it takes it from the
driver. As no handle occurs twice, both calls reach the entry of this input and
no other. -/
theorem closed_ports {before after : List Input} {d : Input}
    (handles : ((before ++ d :: after).map Input.handle).Nodup) :
    (setStarted d.handle false ((before ++ d :: after).map Input.port)).eraseP
      (fun p => p.handle = d.handle) = (before ++ after).map Input.port := by
  rw [List.map_append, List.map_cons, List.nodup_append] at handles
  have left : ∀ c ∈ before, c.handle ≠ d.handle := fun c mem =>
    handles.2.2 _ (List.mem_map_of_mem mem) _ (by simp)
  have right : ∀ c ∈ after, c.handle ≠ d.handle := fun c mem same =>
    (List.nodup_cons.mp handles.2.1).1 (same ▸ List.mem_map_of_mem mem)
  have untouched : ∀ l : List Input, (∀ c ∈ l, c.handle ≠ d.handle) →
      setStarted d.handle false (l.map Input.port) = l.map Input.port := by
    intro l elsewhere
    simp only [setStarted, List.map_map]
    refine List.map_congr_left fun c mem => ?_
    simp [Input.port, elsewhere c mem]
  have parts : setStarted d.handle false ((before ++ d :: after).map Input.port) =
      before.map Input.port ++ ⟨d.handle, d.number, false⟩ :: after.map Input.port := by
    have head : setStarted d.handle false ([d].map Input.port) =
        [⟨d.handle, d.number, false⟩] := by
      simp [setStarted, Input.port]
    have split : (before ++ d :: after).map Input.port =
        before.map Input.port ++ ([d].map Input.port ++ after.map Input.port) := by simp
    rw [split]
    unfold setStarted at head untouched ⊢
    rw [List.map_append, List.map_append, untouched before left, untouched after right, head]
    rfl
  rw [parts, List.eraseP_append_right]
  · simp
  · intro p mem
    obtain ⟨c, inside, rfl⟩ := List.mem_map.mp mem
    simp [Input.port, left c inside]

/-- Opening an input with a fresh handle adds it to the driver, started:
`midiInStart` finds the new entry first, and no older one has its handle. -/
theorem opened_ports {ins : List Input} {handle : Handle} (n : UInt32)
    (fresh : handle ∉ ins.map Input.handle) :
    setStarted handle true (⟨handle, n, false⟩ :: ins.map Input.port) =
      ⟨handle, n, true⟩ :: ins.map Input.port := by
  have rest : setStarted handle true (ins.map Input.port) = ins.map Input.port := by
    simp only [setStarted, List.map_map]
    refine List.map_congr_left fun c mem => ?_
    have ne : c.handle ≠ handle := fun same => fresh (same ▸ List.mem_map_of_mem mem)
    simp [Input.port, ne]
  unfold setStarted at rest ⊢
  rw [List.map_cons, rest]
  simp

/-- The driver's open inputs are those on the list, in the same order. -/
theorem InputsAccounted.inputs_handles {V : View} (h : InputsAccounted V) :
    V.driver.inputs.map InPort.handle = V.ins.map Input.handle := by
  rw [h.ports, List.map_map]
  rfl

/-- An `OpenMidiIn` that fails leaves everything as it was. Without memory for
the device the handle is closed again, if the driver lets it be closed. -/
theorem OpensIn.failed {o : MidiOutcomes} {n : UInt32} {V V' : View} {code : Int}
    (h : OpensIn o n V code V') (closed : o.closed = true) (negative : code < 0) : V' = V := by
  cases h with
  | opened => exact absurd negative (by decide)
  | noMemory => simp [Driver.openIn, Driver.closeIn, closed]
  | _ => rfl

/-- One step keeps the account of the inputs, as long as the driver gives no
handle that is open and delivers only for inputs that it runs. The steps that
matter are openings, closings and deliveries; everything else leaves list,
driver and leaks alone. -/
theorem Performed.inputsAccounted {E : LibEnv σ} {m : Midi} {V V' : View}
    {request : MidiRequest σ} {reply : MidiReply σ} (h : Performed E V request reply V')
    (shows : Shows m V) (behaves : InputsBehave m request) (inv : InputsAccounted V) :
    InputsAccounted V' := by
  have distinct := h.distinct inv.distinct
  obtain ⟨_, ports, handles, noLeak⟩ := inv
  cases h with
  | raised => exact ⟨distinct, ports, handles, noLeak⟩
  | yielded => exact ⟨distinct, ports, handles, noLeak⟩
  | received receives =>
      cases receives with
      | lost _ _ absent =>
          -- the driver delivers for a device it runs, and those are on the list: nothing is
          -- lost
          obtain ⟨p, mem, same, _⟩ := behaves
          rw [shows.driver, ports] at mem
          obtain ⟨d, inside, rfl⟩ := List.mem_map.mp mem
          exact absurd (same ▸ List.mem_map_of_mem inside) (View.number_notMem absent)
      | queued _ _ at_ =>
          refine ⟨distinct, ?_, ?_, noLeak⟩
          · rw [ports, at_.split]
            simp [Input.port, Input.received, Input.number, Input.handle]
          · rw [at_.split] at handles
            simpa [Input.received, Input.handle] using handles
      | _ => exact ⟨distinct, ports, handles, noLeak⟩
  | returned done =>
      cases done with
      | openMidiIn _ opens =>
          cases opens with
          | @opened handle a absent opened memory =>
              -- the new handle is none of those in use, so `midiInStart` starts the new device
              have fresh : handle ∉ V.ins.map Input.handle := by
                have free := behaves.2 rfl handle opened
                rw [shows.driver, ports, List.map_map] at free
                exact free
              refine ⟨distinct, ?_, List.nodup_cons.mpr ⟨fresh, handles⟩, noLeak⟩
              simp only [Driver.openIn, Driver.run, ports]
              rw [opened_ports _ fresh]
              rfl
          | noMemory =>
              refine ⟨distinct, ?_, handles, noLeak⟩
              simp [Driver.openIn, Driver.closeIn, behaves.1, ports]
          | _ => exact ⟨distinct, ports, handles, noLeak⟩
      | closeMidiIn _ closes =>
          cases closes with
          | absent => exact ⟨distinct, ports, handles, noLeak⟩
          | closed at_ =>
              rw [at_.split] at ports handles
              refine ⟨distinct, ?_, ?_, noLeak⟩
              · simp only [Driver.run, Driver.closeIn, behaves.1, if_true, ports]
                exact closed_ports handles
              · rw [List.map_append, List.map_cons] at handles
                rw [List.map_append]
                exact (List.perm_middle.nodup_iff.mp handles).of_cons
      | message _ fetches =>
          cases fetches with
          | fetched at_ =>
              refine ⟨distinct, ?_, ?_, noLeak⟩
              · rw [ports, at_.split]
                simp [Input.port, Input.cut, Input.number, Input.handle]
              · rw [at_.split] at handles
                simpa [Input.cut, Input.handle] using handles
      | nothing _ fetches => cases fetches <;> exact ⟨distinct, ports, handles, noLeak⟩
      | sendMessage _ sends => cases sends <;> exact ⟨distinct, ports, handles, noLeak⟩
      | openMidiOut _ opens => cases opens <;> exact ⟨distinct, ports, handles, noLeak⟩
      | closeMidiOut _ closes =>
          cases closes with
          | absent => exact ⟨distinct, ports, handles, noLeak⟩
          | closed at_ =>
              refine ⟨distinct, ?_, handles, noLeak⟩
              unfold Driver.closeOut
              split <;> exact ports
      | _ => exact ⟨distinct, ports, handles, noLeak⟩

/-- What the driver knows and what is allocated is what the list of inputs says:
the handles of the driver are those of the list, and the cells allocated are the
devices of the list and the events of their lists, each in one place. A failed
open changes nothing of this. -/
structure InputsKept (E : LibEnv σ) (m : Midi) (V : View) : Prop where
  shows : Shows m V
  numbers : (V.ins.map Input.number).Nodup
  handles : m.driver.inputs.map InPort.handle = V.ins.map Input.handle
  devices : ∀ a, m.inDevs.Allocated a ↔ a ∈ V.ins.map Input.addr
  events : ∀ a, m.events.Allocated a ↔ a ∈ V.ins.flatMap fun d => d.queue.map Prod.fst
  once : (V.ins.map Input.addr).Nodup ∧ (V.ins.flatMap fun d => d.queue.map Prod.fst).Nodup
  failed : ∀ args heap o code heap' m', InputsBehave m (.call .openMidiIn args heap o) →
    MidiRequest.perform E (.call .openMidiIn args heap o) m =
      .ok (.returned [.number (.fin code)] heap') m' → code < 0 → Shows m' V

/-- What the account says of the memory itself: with nothing leaked, the
allocated event cells are those of the queues. A failed opening is the one step
whose effect is stated on its own. -/
theorem InputsAccounted.kept {E : LibEnv σ} {m : Midi} {V : View} (shows : Shows m V)
    (inv : InputsAccounted V) : InputsKept E m V := by
  have cells : V.eventAddrs = V.ins.flatMap fun d => d.queue.map Prod.fst := by
    simp [View.eventAddrs, inv.noLeak]
  have addrs := shows.ins.nodup
  rw [List.map_map] at addrs
  refine ⟨shows, inv.distinct.ins, ?_, shows.inCells, cells ▸ shows.eventCells,
    ⟨addrs, cells ▸ shows.apart⟩, ?_⟩
  · rw [shows.driver]
    exact inv.inputs_handles
  · intro args heap o code heap' m' behaves run negative
    obtain ⟨reply, m1, V1, run', performed, shows'⟩ :=
      perform_outcome E shows (.call .openMidiIn args heap o)
    have same := run.symm.trans run'
    cases performed with
    | raised => cases same
    | returned done =>
        simp only [EStateM.Result.ok.injEq, MidiReply.returned.injEq, List.cons.injEq,
          and_true] at same
        obtain ⟨⟨pushed, _⟩, rfl⟩ := same
        cases done with
        | miscounted => exact shows'
        | asked asks => cases asks
        | openMidiIn _ opens =>
            simp only [TValue.number.injEq, LuaNumber.fin.injEq] at pushed
            rw [pushed] at negative
            rw [← opens.failed behaves.1 (by exact_mod_cast negative)]
            exact shows'

/-- The resources of the inputs are accounted for in every run in which the
driver behaves: what is open in the driver, what is on the list and what is
allocated agree in every state reached. -/
theorem inputs_accounted (E : LibEnv σ) (requests : List (MidiRequest σ))
    (behaves : Along (MidiRequest.perform E) InputsBehave requests Midi.init) :
    Ensures (runAll (MidiRequest.perform E) requests) Midi.init
      (fun _ m => ∃ V, InputsKept E m V) fun _ _ => False := by
  have run : Ensures (runAll (MidiRequest.perform E) requests) Midi.init
      (fun _ m => ∃ V, Shows m V ∧ InputsAccounted V) fun _ _ => False := by
    refine Ensures.runAll_history (I := fun _ m => ∃ V, Shows m V ∧ InputsAccounted V)
      (fun _ request m good ⟨V, shows, inv⟩ => ?_) behaves []
      ⟨_, shows_init, ⟨List.nodup_nil, List.nodup_nil⟩, rfl, List.nodup_nil, rfl⟩
    obtain ⟨reply, m', V', done, performed, shows'⟩ := perform_outcome E shows request
    exact .of_ok done ⟨V', shows', performed.inputsAccounted shows good inv⟩
  exact run.mono (fun _ _ ⟨V, shows, inv⟩ => ⟨V, inv.kept shows⟩) fun _ _ h => h

/-- Two inputs, a message for one of them, and an open that finds no memory. -/
def inputRun : List (MidiRequest Unit) :=
  [.call .openMidiIn [.number (.ofNat 0)] quietHeap (smoothly 1),
    .call .openMidiIn [.number (.ofNat 1)] quietHeap (smoothly 2),
    .receive true 1 0x00643C90,
    .call .openMidiIn [.number (.ofNat 2)] quietHeap { smoothly 3 with malloc := false },
    .call .closeMidiIn [.number (.ofNat 0)] quietHeap (smoothly 0)]

theorem inputs_accounted_inputRun :
    Ensures (runAll (MidiRequest.perform quietEnv) inputRun) Midi.init
      (fun _ m => ∃ V, InputsKept quietEnv m V) fun _ _ => False :=
  inputs_accounted quietEnv inputRun (by decide +kernel)

/-! ### Outputs -/

/-- What the driver keeps to, for outputs. -/
def OutputsBehave (m : Midi) : MidiRequest σ → Prop
  | .call f _ _ o => o.closed = true ∧
      (f = .openMidiOut → ∀ handle, o.opened = some handle → handle ∉ m.driver.outputs)
  | .receive _ _ _ => True

instance (m : Midi) : ∀ request : MidiRequest σ, Decidable (OutputsBehave m request)
  | .call f _ _ o => inferInstanceAs (Decidable (o.closed = true ∧ (f = .openMidiOut → _)))
  | .receive _ _ _ => .isTrue trivial

/-- The call asks the driver to open an output, which is not open yet, gets a
handle, and then finds no memory for it. -/
def LosesHandle (E : LibEnv σ) (m : Midi) (request : MidiRequest σ) : Prop :=
  match request with
  | .call f [v] _ o => f = .openMidiOut ∧ v.isnumber E.toCLib = true ∧
      Ensures (getMidiOutEntry (v.device E)) m (fun dev _ => dev = none) (fun _ _ => False) ∧
      o.opened ≠ none ∧ o.malloc = false
  | _ => False

instance (E : LibEnv σ) (m : Midi) : ∀ request : MidiRequest σ, Decidable (LosesHandle E m request)
  | .call f [v] _ o => inferInstanceAs (Decidable (f = .openMidiOut ∧ v.isnumber E.toCLib = true ∧
      Ensures (getMidiOutEntry (v.device E)) m _ _ ∧ o.opened ≠ none ∧ _))
  | .call _ [] _ _ => .isFalse id
  | .call _ (_ :: _ :: _) _ _ => .isFalse id
  | .receive _ _ _ => .isFalse id

/-- One step of `latestOpen`. -/
def latestStep (E : LibEnv σ) (n : UInt32) (latest : Option Handle) :
    MidiRequest σ × MidiReply σ → Option Handle
  | (.call .openMidiOut [v] _ o, .returned [.number (.fin code)] _) =>
      if code = 0 ∧ v.device E = n then o.opened else latest
  | (.call .closeMidiOut [v] _ _, .returned [.number (.fin code)] _) =>
      if code = 0 ∧ v.device E = n then none else latest
  | _ => latest

/-- The handle of the latest successful open of `n`, unless it was closed since. -/
def latestOpen (E : LibEnv σ) (n : UInt32) (history : List (MidiRequest σ × MidiReply σ)) :
    Option Handle :=
  history.foldl (latestStep E n) none

/-- What is open after one more step: the history is a fold, so the last step
alone decides it from what was open before. -/
theorem latestOpen_step (E : LibEnv σ) (n : UInt32)
    (history : List (MidiRequest σ × MidiReply σ)) (x : MidiRequest σ × MidiReply σ) :
    latestOpen E n (history ++ [x]) = latestStep E n (latestOpen E n history) x := by
  simp [latestOpen]

/-- The outputs of the list and of the driver are the same, and each is found
until it is closed. -/
structure OutputsRegistered (E : LibEnv σ) (history : List (MidiRequest σ × MidiReply σ))
    (V : View) : Prop where
  distinct : V.Distinct
  handles : V.driver.outputs = V.outs.map fun x => x.2.handle
  once : V.driver.outputs.Nodup
  latest : ∀ n, (V.output n).map (fun x => x.2.handle) = latestOpen E n history

/-- An `OpenMidiOut` that fails leaves everything as it was, unless it loses a
handle: its sibling closes the handle when there is no memory, this one does
not. -/
theorem OpensOut.failed {o : MidiOutcomes} {n : UInt32} {V V' : View} {code : Int}
    (h : OpensOut o n V code V') (negative : code < 0)
    (memory : V.output n = none → o.opened ≠ none → o.malloc = true) : V' = V := by
  cases h with
  | opened => exact absurd negative (by decide)
  | noMemory absent opened lost => simp [memory absent (by simp [opened])] at lost
  | _ => rfl

/-- The view's reading of `LosesHandle`: a device that is opened anew, with a
handle from the driver, had memory. -/
theorem malloc_of_kept {E : LibEnv σ} {m : Midi} {V : View} (shows : Shows m V) {v : TValue}
    {heap : Heap σ} {o : MidiOutcomes} (number : v.isnumber E.toCLib = true)
    (kept : ¬LosesHandle E m (.call .openMidiOut [v] heap o)) :
    V.output (v.device E) = none → o.opened ≠ none → o.malloc = true := by
  intro absent opened
  by_contra lost
  refine kept ⟨rfl, number, .of_ok (run_getMidiOutEntry shows _) ?_, opened, by simpa using lost⟩
  rw [absent]
  rfl

section OutputSteps

variable {E : LibEnv σ} {V V' : View} {history : List (MidiRequest σ × MidiReply σ)}

/-- Asking the driver opens and closes nothing, whatever it answers. -/
theorem latestStep_asked (E : LibEnv σ) (n : UInt32) (latest : Option Handle) {f : MidiFunc}
    (asks : f.asks = true) (args : List TValue) (heap : Heap σ) (o : MidiOutcomes)
    (reply : MidiReply σ) : latestStep E n latest (.call f args heap o, reply) = latest := by
  cases f with
  | getMidiOutName | getMidiInName | countDevices => rfl
  | _ => cases asks

/-- A step that concerns no output: neither the list nor the driver's handles
change, and the history says the same as before. -/
theorem OutputsRegistered.same (inv : OutputsRegistered E history V) (distinct : V'.Distinct)
    (outs : V'.outs = V.outs) (outputs : V'.driver.outputs = V.driver.outputs)
    {x : MidiRequest σ × MidiReply σ}
    (quiet : ∀ n latest, latestStep E n latest x = latest) :
    OutputsRegistered E (history ++ [x]) V' := by
  refine ⟨distinct, ?_, ?_, fun n => ?_⟩
  · rw [outputs, outs]
    exact inv.handles
  · rw [outputs]
    exact inv.once
  · rw [latestOpen_step, quiet, ← inv.latest n, View.output, outs]
    rfl

/-- A delivery concerns no output. -/
theorem Receives.outs {malloc : Bool} {instdat msgpar : UInt32}
    (h : Receives malloc instdat msgpar V V') : V'.outs = V.outs ∧ V'.driver = V.driver := by
  cases h <;> exact ⟨rfl, rfl⟩

/-- Opening adds the device at the head of both lists: under its number it is
found first, under others what was found before. -/
theorem OutputsRegistered.opened (inv : OutputsRegistered E history V) {handle : Handle} {a : Nat}
    {n : UInt32} (fresh : handle ∉ V.driver.outputs)
    (distinct : View.Distinct { V with
      outs := (a, ⟨n, handle⟩) :: V.outs, driver := V.driver.openOut handle })
    {x : MidiRequest σ × MidiReply σ}
    (opens : ∀ k latest, latestStep E k latest x = if n = k then some handle else latest) :
    OutputsRegistered E (history ++ [x])
      { V with outs := (a, ⟨n, handle⟩) :: V.outs, driver := V.driver.openOut handle } := by
  refine ⟨distinct, ?_, List.nodup_cons.mpr ⟨fresh, inv.once⟩, fun k => ?_⟩
  · simp [Driver.openOut, inv.handles]
  · rw [latestOpen_step, opens]
    by_cases here : n = k
    · simp [View.output, here]
    · have before := inv.latest k
      simp only [View.output] at before
      simp [View.output, here, before]

/-- Closing takes the device from both lists: its handle occurs once among the
driver's, so the right one goes, and nothing is found under its number any
more. -/
theorem OutputsRegistered.closed (inv : OutputsRegistered E history V) {n : UInt32}
    {before after : List (Nat × MidiOutDev)} {a : Nat} {dev : MidiOutDev}
    (at_ : OutputAt V n before a dev after)
    (distinct : View.Distinct { V with
      outs := before ++ after, driver := V.driver.closeOut dev.handle true })
    {x : MidiRequest σ × MidiReply σ}
    (closes : ∀ k latest, latestStep E k latest x = if n = k then none else latest) :
    OutputsRegistered E (history ++ [x])
      { V with outs := before ++ after, driver := V.driver.closeOut dev.handle true } := by
  have outs := inv.distinct.outs
  have handles := inv.handles
  have once := inv.once
  rw [at_.split] at outs handles
  rw [handles] at once
  simp only [List.map_append, List.map_cons] at once
  obtain ⟨gone, rest⟩ := List.nodup_cons.mp (List.perm_middle.nodup_iff.mp once)
  have outputs : (V.driver.closeOut dev.handle true).outputs =
      (before ++ after).map fun x => x.2.handle := by
    have left : dev.handle ∉ before.map fun x => x.2.handle := fun mem =>
      gone (List.mem_append_left _ mem)
    simp only [Driver.closeOut, if_true, handles, List.map_append, List.map_cons]
    rw [List.erase_append_right _ left, List.erase_cons_head]
  refine ⟨distinct, outputs, ?_, fun k => ?_⟩
  · rw [outputs, List.map_append]
    exact rest
  · have lookup := congrFun (firstWith_removed (fun x : Nat × MidiOutDev => x.2.number) outs) k
    rw [latestOpen_step, closes]
    refine (congrArg (Option.map fun x => x.2.handle) lookup).trans ?_
    by_cases here : n = k
    · simp [here, at_.number]
    · have elsewhere : ¬k = dev.number := fun same => here (by rw [same, at_.number])
      rw [Function.update_of_ne elsewhere, ← at_.split, if_neg here]
      exact inv.latest k

/-- One step keeps the register of the outputs. The step that loses a handle is
the one where `OpenMidiOut` has its handle and gets no memory for the device; it
is left out by hypothesis. Opening adds the handle at the head of both lists,
closing takes it from both. -/
theorem OutputsRegistered.step {m : Midi} {request : MidiRequest σ} {reply : MidiReply σ}
    (inv : OutputsRegistered E history V) (h : Performed E V request reply V')
    (shows : Shows m V) (behaves : OutputsBehave m request) (kept : ¬LosesHandle E m request) :
    OutputsRegistered E (history ++ [(request, reply)]) V' := by
  have distinct := h.distinct inv.distinct
  cases h with
  | raised => exact inv.same distinct rfl rfl fun n latest => by simp [latestStep]
  | yielded => exact inv.same distinct rfl rfl fun n latest => rfl
  | received receives =>
      exact inv.same distinct receives.outs.1 (by rw [receives.outs.2]) fun n latest => rfl
  | returned done =>
      cases done with
      | miscounted count =>
          refine inv.same distinct rfl rfl fun n latest => ?_
          -- a call with a wrong number of arguments is neither an opening nor a closing
          unfold latestStep
          split
          · rename_i same
            cases same
            exact absurd rfl count
          · rename_i same
            cases same
            exact absurd rfl count
          · rfl
      | asked asks =>
          exact inv.same distinct rfl rfl fun n latest => latestStep_asked E n latest asks _ _ _ _
      | openMidiIn _ opens =>
          cases opens with
          | noMemory =>
              refine inv.same distinct rfl ?_ fun n latest => rfl
              unfold Driver.closeIn
              split <;> rfl
          | _ => exact inv.same distinct rfl rfl fun n latest => rfl
      | closeMidiIn _ closes =>
          cases closes with
          | absent => exact inv.same distinct rfl rfl fun n latest => rfl
          | closed =>
              refine inv.same distinct rfl ?_ fun n latest => rfl
              unfold Driver.closeIn
              split <;> rfl
      | nothing _ fetches =>
          cases fetches <;> exact inv.same distinct rfl rfl fun n latest => rfl
      | message _ fetches =>
          cases fetches
          exact inv.same distinct rfl rfl fun n latest => rfl
      | sendMessage _ sends =>
          cases sends <;> exact inv.same distinct rfl rfl fun n latest => rfl
      | @openMidiOut v _ _ number opens =>
          cases opens with
          | already => exact inv.same distinct rfl rfl fun n latest => by simp [latestStep]
          | refused => exact inv.same distinct rfl rfl fun n latest => by simp [latestStep]
          | noMemory absent opened lost =>
              simp [malloc_of_kept shows number kept absent (by simp [opened])] at lost
          | @opened handle a absent opened memory =>
              have fresh := behaves.2 rfl handle opened
              rw [shows.driver] at fresh
              exact inv.opened fresh distinct fun n latest => by simp [latestStep, opened]
      | @closeMidiOut v _ _ _ closes =>
          cases closes with
          | absent => exact inv.same distinct rfl rfl fun n latest => by simp [latestStep]
          | closed at_ =>
              rw [behaves.1] at distinct ⊢
              exact inv.closed at_ distinct fun n latest => by simp [latestStep]

end OutputSteps

/-- The list of outputs matches the driver: the same handles, each found under its
number until it is closed. A failed open changes neither, unless it loses a
handle. -/
structure OutputsKept (E : LibEnv σ) (history : List (MidiRequest σ × MidiReply σ)) (m : Midi)
    (V : View) : Prop where
  shows : Shows m V
  numbers : (V.outs.map fun x => x.2.number).Nodup
  handles : m.driver.outputs = V.outs.map fun x => x.2.handle
  found : ∀ n, getMidiOutEntry n m = .ok ((V.output n).map Prod.fst) m
  latest : ∀ n, (V.output n).map (fun x => x.2.handle) = latestOpen E n history
  failed : ∀ args heap o code heap' m', ¬LosesHandle E m (.call .openMidiOut args heap o) →
    MidiRequest.perform E (.call .openMidiOut args heap o) m =
      .ok (.returned [.number (.fin code)] heap') m' → code < 0 → Shows m' V

/-- What the register says of the memory itself: lookups find what the history
says, and a failed opening that loses no handle leaves the lists as they are. -/
theorem OutputsRegistered.kept {E : LibEnv σ} {history : List (MidiRequest σ × MidiReply σ)}
    {m : Midi} {V : View} (shows : Shows m V) (inv : OutputsRegistered E history V) :
    OutputsKept E history m V := by
  refine ⟨shows, inv.distinct.outs, ?_, run_getMidiOutEntry shows, inv.latest, ?_⟩
  · rw [shows.driver]
    exact inv.handles
  · intro args heap o code heap' m' kept run negative
    obtain ⟨reply, m1, V1, run', performed, shows'⟩ :=
      perform_outcome E shows (.call .openMidiOut args heap o)
    have same := run.symm.trans run'
    cases performed with
    | raised => cases same
    | returned done =>
        simp only [EStateM.Result.ok.injEq, MidiReply.returned.injEq, List.cons.injEq,
          and_true] at same
        obtain ⟨⟨pushed, _⟩, rfl⟩ := same
        cases done with
        | miscounted => exact shows'
        | asked asks => cases asks
        | openMidiOut number opens =>
            simp only [TValue.number.injEq, LuaNumber.fin.injEq] at pushed
            rw [pushed] at negative
            rw [← opens.failed (by exact_mod_cast negative) (malloc_of_kept shows number kept)]
            exact shows'

/-- In a run that loses no handle, the outputs match the driver in every state. -/
theorem outputs_registered (E : LibEnv σ) (requests : List (MidiRequest σ))
    (behaves : Along (MidiRequest.perform E)
      (fun m request => OutputsBehave m request ∧ ¬LosesHandle E m request) requests Midi.init) :
    Ensures (runAll (MidiRequest.perform E) requests) Midi.init
      (fun replies m => ∃ V, OutputsKept E (requests.zip replies) m V) fun _ _ => False := by
  have run : Ensures (runAll (MidiRequest.perform E) requests) Midi.init
      (fun replies m => ∃ V, Shows m V ∧ OutputsRegistered E (requests.zip replies) V)
      fun _ _ => False := by
    refine Ensures.runAll_history
      (I := fun history m => ∃ V, Shows m V ∧ OutputsRegistered E history V)
      (fun history request m good ⟨V, shows, inv⟩ => ?_) behaves []
      ⟨_, shows_init, ⟨List.nodup_nil, List.nodup_nil⟩, rfl, List.nodup_nil, fun _ => rfl⟩
    obtain ⟨reply, m', V', done, performed, shows'⟩ := perform_outcome E shows request
    exact .of_ok done ⟨V', shows', inv.step performed shows good.1 good.2⟩
  exact run.mono (fun _ _ ⟨V, shows, inv⟩ => ⟨V, inv.kept shows⟩) fun _ _ h => h

/-- Two outputs; the first is closed and opened again. -/
def outputRun : List (MidiRequest Unit) :=
  [.call .openMidiOut [.number (.ofNat 0)] quietHeap (smoothly 1),
    .call .openMidiOut [.number (.ofNat 1)] quietHeap (smoothly 2),
    .call .closeMidiOut [.number (.ofNat 0)] quietHeap (smoothly 0),
    .call .openMidiOut [.number (.ofNat 0)] quietHeap (smoothly 3)]

theorem outputs_registered_outputRun :
    Ensures (runAll (MidiRequest.perform quietEnv) outputRun) Midi.init
      (fun replies m => ∃ V, OutputsKept quietEnv (outputRun.zip replies) m V) fun _ _ => False :=
  outputs_registered quietEnv outputRun (by decide +kernel)

/-- Without memory behind a successful `midiOutOpen` the call returns -4 and the
driver keeps a handle that is in no list. -/
theorem handle_lost :
    Ensures (MidiRequest.perform quietEnv (.call .openMidiOut [.number (.ofNat 0)] quietHeap
        { smoothly 1 with malloc := false })) Midi.init
      (fun reply m => reply.values = some [.number (.fin (-4))] ∧ m.pMidiOutDevList = none ∧
        m.driver.outputs = [1]) fun _ _ => False := by
  decide +kernel

end ProfiLua
