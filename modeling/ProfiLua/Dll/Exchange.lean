import ProfiLua.Dll.Steps

/-!
The data exchange of a step, as the pins and the script see it.

Through any run of `CCalculateEx` calls whose results are well typed, each call
passes the input pins to `gCalculate` in one table and puts its result on the
output pins, channel by channel; everything else stays (`exchange_along`).
-/

namespace ProfiLua

open Program

variable {σ : Type} (E : Env σ)

/-! ### Activations in the record -/

/-- The part of the script an event sets running, with the argument table. -/
def Event.activated : Event → Option (Activation × Option Table)
  | .activation what argument => some (what, argument)
  | _ => none

/-- What the DLL has set running so far, each with its epoch. -/
def Dll.activations (s : Dll σ) : List (Nat × Activation × Option Table) :=
  s.trace.filterMap fun e => e.2.activated.map (Prod.mk e.1)

/-- Noting events adds what they set running. -/
theorem Dll.activations_note (s : Dll σ) (events : List Event) :
    (s.note events).activations =
      s.activations ++ (events.filterMap Event.activated).map (Prod.mk s.epoch) := by
  unfold Dll.activations Dll.note
  rw [List.filterMap_append]
  congr 1
  induction events with
  | nil => rfl
  | cons e rest ih =>
      simp only [List.map_cons, List.filterMap_cons]
      cases e.activated with
      | none => exact ih
      | some what => exact congrArg _ ih

/-- Events that set nothing running leave the activations. -/
theorem Grows.activations {Allowed : Event → Prop} {s t : Dll σ} (h : Grows Allowed s t)
    (inert : ∀ e, Allowed e → e.activated = none) : t.activations = s.activations := by
  obtain ⟨_, gained, ht, allowed⟩ := h
  unfold Dll.activations
  have none : gained.filterMap (fun e => e.2.activated.map (Prod.mk e.1)) = [] := by
    refine List.filterMap_eq_nil_iff.mpr fun e mem => ?_
    rw [inert _ (allowed e mem).1]
    rfl
  rw [ht, List.filterMap_append, none, List.append_nil]

theorem Event.OfConsole.inert {e : Event} (h : e.OfConsole) : e.activated = none := by
  cases e with
  | activation what argument => exact h.elim
  | _ => rfl

/-! ### One step -/

/-- Every result of `gCalculate` can be stored. -/
def ResultFits (C : CLib) : ReplyCondition
  | .result .gCalculate, outputs, marked, answer => answer.Fits C outputs marked
  | _, _, _, _ => True

/-- A result of `gCalculate` that fits can be read. -/
theorem ResultFits.reads (C : CLib) : Reads C (ResultFits C) (.result .gCalculate) :=
  fun _ _ _ fits _ => fits

/-- The argument table holds exactly the input channels: the C string of a string
pin, the number of any other. -/
structure HoldsInputs (s : Dll σ) (argument : Table) : Prop where
  plain : argument.metatable = false
  entry : ∀ i, 1 ≤ i → i < s.gNumInputs.toNat → argument.node (.number (.ofNat i)) =
    if s.gInStrMarker i ≠ 0 then .string (cstr (s.host.pString i)) else .number (s.host.pInput i)
  noOther : ∀ key, (∀ i, 1 ≤ i → i < s.gNumInputs.toNat → key ≠ .number (.ofNat i)) →
    argument.node key = .nil

/-- The output channels hold the result: the number of a channel, or for a string
pin its text up to the first NUL. All other cells are as they were. -/
structure HoldsResult (C : CLib) (s : Dll σ) (result : Nat → TValue) (h : Host) : Prop where
  pOutput : ∀ j, h.pOutput j =
    if 1 ≤ j ∧ j < s.gNumOutputs.toNat ∧ s.outputMarks j = false then (result j).num C
    else s.host.pOutput j
  pString : ∀ j, h.pString j =
    if 1 ≤ j ∧ j < s.gNumOutputs.toNat ∧ s.outputMarks j = true then cstr ((result j).text C)
    else s.host.pString j
  pInput : h.pInput = s.host.pInput
  pUser : h.pUser = s.host.pUser

/-- Nothing but the console flags and the heap of the script can differ. -/
structure SameExchange (s t : Dll σ) : Prop where
  gNumInputs : t.gNumInputs = s.gNumInputs
  gNumOutputs : t.gNumOutputs = s.gNumOutputs
  gERROR : t.gERROR = s.gERROR
  gFileNum : t.gFileNum = s.gFileNum
  gInStrMarker : t.gInStrMarker = s.gInStrMarker
  gOutStrMarker : t.gOutStrMarker = s.gOutStrMarker
  gCSimStartOverride : t.gCSimStartOverride = s.gCSimStartOverride
  epoch : t.epoch = s.epoch

/-- What a step does: `s` is the state before it, with the arrays as the host
passes them. `gCalculate` is called once, with the inputs, and the table it
returns goes to the outputs. -/
def Exchange (s t : Dll σ) : Prop :=
  ∃ (stack : List TValue) (heap heap₁ heap' : Heap σ) (f r : Nat) (argument : Table)
    (values : List TValue),
    s.L = some ⟨stack, heap⟩ ∧ t.L = some ⟨stack, heap'⟩ ∧
    Looked E heap.globals (.string (lit "gCalculate")) heap (.function f) heap₁ ∧
    E.call (.function f) [.table heap₁.bound] (heap₁.alloc argument) =
      .returned (.table r :: values) heap' ∧
    t.activations = s.activations ++ [(s.epoch, .hook .gCalculate, some argument)] ∧
    HoldsInputs s argument ∧
    HoldsResult E.toCLib s (fun j => (heap'.table r).node (.number (.ofNat j))) t.host ∧
    SameExchange s t

/-- The argument table holds the inputs, pin by pin. -/
theorem inputTable_holds (s : Dll σ) : HoldsInputs s (inputTable s (stepText s)) where
  plain := arrayTable_metatable _ _
  entry := fun _ pos lt => inputTable_node s _ pos lt
  noOther := fun _ other => inputTable_other s _ other

/-- What the loop stores holds the result, channel by channel. -/
theorem stored_holds (C : CLib) (s : Dll σ) (result : Nat → TValue) :
    HoldsResult C s result
      (s.host.stored (Host.storeResult C s.outputMarks result) 1 s.gNumOutputs.toNat) where
  pOutput := fun j => storedResult_pOutput C s.outputMarks result s.host _ j
  pString := fun j => storedResult_pString C s.outputMarks result s.host _ j
  pInput := (storedResult_inputs C s.outputMarks result s.host _ 1).1
  pUser := (storedResult_inputs C s.outputMarks result s.host _ 1).2

/-- Opening the console does not change what the pins say. -/
theorem HoldsInputs.of_console {s u : Dll σ} {argument : Table} (only : ConsoleOnly s u)
    (h : HoldsInputs u argument) : HoldsInputs s argument := by
  obtain ⟨plain, entry, noOther⟩ := h
  rw [only.gNumInputs] at entry noOther
  rw [only.gInStrMarker, only.host] at entry
  exact ⟨plain, entry, noOther⟩

/-- The console step before the exchange has no part in it. -/
theorem HoldsResult.of_console {C : CLib} {s u : Dll σ} {result : Nat → TValue} {h : Host}
    (only : ConsoleOnly s u) (holds : HoldsResult C u result h) : HoldsResult C s result h := by
  have marks : u.outputMarks = s.outputMarks := by
    funext j
    simp only [Dll.outputMarks, only.gOutStrMarker]
  obtain ⟨pOutput, pString, pInput, pUser⟩ := holds
  rw [only.gNumOutputs, marks, only.host] at pOutput pString
  rw [only.host] at pInput pUser
  exact ⟨pOutput, pString, pInput, pUser⟩

/-- A step that finds no error and gets a result that fits is an exchange: of
the ways it can end, the others are excluded by the flag and by what the record
says of the reply. -/
theorem StepDone.exchange {s t : Dll σ} (h : StepDone E s t) (fine : s.gERROR = 0)
    (meets : t.Meets (ResultFits E.toCLib)) : Exchange E s t := by
  cases h with
  | reported only error => exact absurd (only.gERROR.trans fine) error
  | @exchanged u v stack heap only _ live exchanged =>
      cases exchanged with
      | missing => exact (Dll.Meets.noted (s := u) meets).elim
      | other _ _ other =>
          exact absurd (Dll.Meets.noted (s := u.called .gCalculate (stepText u)) meets)
            (not_fits_of_other other)
      | @stored v values heap' answered first fits =>
          obtain ⟨f, heap₁, looked, called⟩ := answered
          obtain ⟨r, rfl, _⟩ := fits_table fits
          have shape : values = .table r :: values.tail := by
            cases values with
            | nil => cases first
            | cons w rest => rw [show w = .table r from first.symm]; rfl
          rw [shape] at called
          refine ⟨stack, heap, heap₁, heap', f, r, inputTable u (stepText u), values.tail,
            only.L ▸ live, rfl, looked, called, ?_, .of_console only (inputTable_holds u),
            .of_console only (stored_holds E.toCLib u _), ?_⟩
          -- the console step calls nothing, so the one activation is that of gCalculate
          · have before := only.trace.activations fun _ => Event.OfConsole.inert
            have call := Dll.activations_note u [.activation (.hook .gCalculate)
              (some (inputTable u (stepText u)))]
            rw [before, only.epoch] at call
            exact (Dll.activations_note (u.called .gCalculate (stepText u)) _).trans
              ((List.append_nil _).trans call)
          · exact ⟨only.gNumInputs, only.gNumOutputs, only.gERROR, only.gFileNum,
              only.gInStrMarker, only.gOutStrMarker, only.gCSimStartOverride, only.epoch⟩

/-! ### Runs of steps -/

/-- A simulation with the script open and no error. -/
structure Simulating (s : Dll σ) : Prop where
  fine : s.gERROR = 0
  settled : s.gCSimStartOverride = 0
  live : s.L.isSome
  fit : s.CountsFit

/-- A step leaves a simulation that the next step can go on with. -/
theorem Exchange.simulating {s t : Dll σ} (h : Exchange E s t) (running : Simulating s) :
    Simulating t := by
  obtain ⟨stack, heap, heap₁, heap', f, r, argument, values, _, live, _, _, _, _, _, same⟩ := h
  exact ⟨same.gERROR.trans running.fine, same.gCSimStartOverride.trans running.settled,
    by rw [live]; rfl, running.fit.of_counts same.gNumInputs same.gNumOutputs⟩

/-- One step of a simulation, with a result that can be stored. -/
theorem Simulating.exchange {s : Dll σ} (h : Simulating s) :
    EnsuresIf (Dll.Meets (ResultFits E.toCLib)) (cCalculateEx E) s (fun _ t => Exchange E s t)
      (fun e _ => e.Raised) :=
  (cCalculateEx_later E (ResultFits.reads E.toCLib) h.fit h.settled fun _ => h.live).keep.mono
    (fun _ _ ⟨step, meets⟩ => step.exchange E h.fine meets) fun _ _ ⟨stop, _⟩ => stop.1

/-- The same for the host's call, with what it has written to its arrays before.
The inputs of the exchange are those the host has just set. -/
theorem Simulating.perform {s : Dll σ} (h : Simulating s) {c : HostCall}
    (step : c.entry = .cCalculateEx) :
    EnsuresIf (Dll.Meets (ResultFits E.toCLib)) (c.perform E) s
      (fun _ t => Exchange E { s with host := c.write s.host } t) (fun e _ => e.Raised) := by
  have passed : Simulating { s with host := c.write s.host } :=
    ⟨h.fine, h.settled, h.live, h.fit.of_counts rfl rfl⟩
  refine HostCall.ensures E ?_
  rw [step, Entry.perform_cCalculateEx]
  exact (passed.exchange E).bind (fun _ => .pure (fun _ => id) _)
    fun _ _ done => .pure fun _ => done

/-- Every call of a run of `CCalculateEx` exchanges the pins with `gCalculate`
as `Exchange` says, as long as the results of `gCalculate` can be stored; only
an error of the script stops it. The invariant of the run is `Simulating`, which
every exchange keeps. -/
theorem exchange_along {s : Dll σ} (simulating : Simulating s) (calls : List HostCall)
    (steps : ∀ c ∈ calls, c.entry = .cCalculateEx) :
    Along (HostCall.perform E) (fun t c =>
      EnsuresIf (Dll.Meets (ResultFits E.toCLib)) (c.perform E) t
        (fun _ u => Exchange E { t with host := c.write t.host } u) (fun e _ => e.Raised))
      calls s.recordAnew := by
  refine Along.of_invariant
    (I := fun t : Dll σ => t.Meets (ResultFits E.toCLib) → Simulating t)
    (fun t c step inv => ?_) (fun t c r u step inv outcome meets => ?_) steps fun _ => ?_
  · exact EnsuresIf.from_start (HostCall.reflects E c) fun meets => (inv meets).perform E step
  · have before : t.Meets (ResultFits E.toCLib) := (HostCall.reflects E c t).ok outcome meets
    have passed : Simulating { t with host := c.write t.host } :=
      ⟨(inv before).fine, (inv before).settled, (inv before).live,
        (inv before).fit.of_counts rfl rfl⟩
    exact (((inv before).perform E step).ok outcome meets).simulating E passed
  · exact ⟨simulating.fine, simulating.settled, simulating.live,
      simulating.fit.of_counts rfl rfl⟩

instance {C : CLib} : ∀ source outputs marked, DecidablePred (ResultFits C source outputs marked)
  | .result .gCalculate, outputs, marked, answer =>
      inferInstanceAs (Decidable (answer.Fits C outputs marked))
  | .result .gSimStart, _, _, _ => .isTrue trivial
  | .result .gSimStop, _, _, _ => .isTrue trivial
  | .result .gInputName, _, _, _ => .isTrue trivial
  | .result .gOutputName, _, _, _ => .isTrue trivial
  | .gPUser, _, _, _ => .isTrue trivial

/-- A script with two channels each way, the second ones string pins. `gCalculate`
answers with its argument, the text `on` put into it. -/
def stringPins : Env Unit :=
  sampleEnv [("gNumInputs", .number (.ofNat 2)), ("gNumOutputs", .number (.ofNat 2)),
    ("gInputName", .function 1), ("gOutputName", .function 1), ("gSimStart", .function 2),
    ("gCalculate", .function 3)]
    fun f args h =>
      match f, args with
      | 1, _ => ([.string (if args = [.number (.ofNat 2)] then [dollar] else lit "pin")], h)
      | 3, [.table r] => (args, h.store r (.number (.ofNat 2)) (.string (lit "on")))
      | _, _ => (args, h)

/-- Two steps with the numbers at 3 and then at 4, and the texts at `off`. -/
def twoSteps : List HostCall :=
  [3, 4].map fun n =>
    ⟨fun h => { h with pInput := fun _ => .ofNat n, pString := fun _ => lit "off" }, .cCalculateEx⟩

/-- The first output follows its input, and the second one takes the text. -/
theorem exchange_along_twoSteps :
    ∃ s rs t, Simulating s ∧ (s.gInStrMarker 2 = 1 ∧ s.gOutStrMarker 2 = 1) ∧
      runCalls stringPins twoSteps s.recordAnew = .ok rs t ∧
      t.Meets (ResultFits stringPins.toCLib) ∧
      (t.host.pOutput 1 = .ofNat 4 ∧ t.host.pString 2 = lit "on") ∧
      Along (HostCall.perform stringPins) (fun t c =>
        EnsuresIf (Dll.Meets (ResultFits stringPins.toCLib)) (c.perform stringPins) t
          (fun _ u => Exchange stringPins { t with host := c.write t.host } u)
          (fun e _ => e.Raised)) twoSteps s.recordAnew := by
  have sample : Ensures (runCalls stringPins
      (quietCalls [.cNumInputsEx, .cNumOutputsEx, .cSimStart, .cCalculateEx])) (Dll.init sampleHost)
      (fun _ s => (s.gERROR = 0 ∧ s.gCSimStartOverride = 0 ∧ s.L.isSome ∧ s.CountsFit) ∧
        (s.gInStrMarker 2 = 1 ∧ s.gOutStrMarker 2 = 1) ∧
        Ensures (runCalls stringPins twoSteps) s.recordAnew
          (fun _ t => t.Meets (ResultFits stringPins.toCLib) ∧
            t.host.pOutput 1 = .ofNat 4 ∧ t.host.pString 2 = lit "on")
          fun _ _ => False) (fun _ _ => False) := by
    decide +kernel
  obtain ⟨_, s, _, ⟨fine, settled, live, fit⟩, marked, steps⟩ := sample.returns
  obtain ⟨rs, t, run, meets, follows⟩ := steps.returns
  have simulating : Simulating s := ⟨fine, settled, live, fit⟩
  exact ⟨s, rs, t, simulating, marked, run, meets, follows,
    exchange_along stringPins simulating twoSteps (by decide)⟩

end ProfiLua
