import Mathlib.Tactic.Linarith
import ProfiLua.Midi.Devices

/-!
A device number that is not an integer.

`GetMessage` takes its argument with `luaL_checknumber` and a cast, which drops
the fraction; `OpenMidiIn` and `CloseMidiIn` take it with `luaL_checkinteger`,
which rounds. A number whose nearest integer is above it is opened as one device
and queried as another, and its messages are never found. All other numbers mean
the same device everywhere (`readsOneDevice_iff`).
-/

namespace ProfiLua

open Program

variable {σ : Type}

/-! ### The two conversions -/

/-- Rounding goes down below the middle, and at the middle from an even number. -/
theorem roundEven_eq_floor_iff (x : Rat) :
    roundEven x = x.floor ↔ x - x.floor < 1 / 2 ∨ x - x.floor = 1 / 2 ∧ x.floor % 2 = 0 := by
  unfold roundEven
  split_ifs with below above even
  · exact iff_of_true rfl (.inl below)
  · refine iff_of_false (by omega) ?_
    rintro (less | ⟨half, -⟩)
    · exact below less
    · exact absurd half above.ne'
  · have half : x - x.floor = 1 / 2 := le_antisymm (not_lt.mp above) (not_lt.mp below)
    exact iff_of_true rfl (.inr ⟨half, even⟩)
  · refine iff_of_false (by omega) ?_
    rintro (less | ⟨-, even'⟩)
    · exact below less
    · exact even even'

/-- Rounding moves a number to one of its two neighbours. -/
theorem roundEven_bounds (x : Rat) : x.floor ≤ roundEven x ∧ roundEven x ≤ x.floor + 1 := by
  unfold roundEven
  split_ifs <;> omega

/-- For numbers that are not negative, truncating is rounding down. -/
theorem trunc_floor {x : Rat} (low : 0 ≤ x) : LuaNumber.trunc (.fin x) = some x.floor := by
  have num : 0 ≤ x.num := Rat.num_nonneg.mpr low
  rw [LuaNumber.trunc, Int.tdiv_eq_ediv_of_nonneg num, Rat.floor_def]

/-- A non-negative `int` is the same number as an `unsigned`. -/
theorem toUInt32_ofInt {i : Int} (low : 0 ≤ i) : (Int32.ofInt i).toUInt32 = i.toNat.toUInt32 := by
  obtain ⟨n, rfl⟩ := Int.eq_ofNat_of_zero_le low
  simp only [Int32.ofInt, Int.toNat_natCast, Nat.toUInt32_eq]
  rfl

section Number

variable (E : LibEnv σ) {x : Rat}

/-- Below 2^31 - 1 both neighbours are `int`s. -/
theorem floor_small (low : 0 ≤ x) (high : x < 2 ^ 31 - 1) : 0 ≤ x.floor ∧ x.floor < 2 ^ 31 - 1 := by
  constructor
  · exact Rat.le_floor_iff.mpr (by exact_mod_cast low)
  · exact Rat.floor_lt_iff.mpr (by exact_mod_cast high)

/-- `GetMessage` drops the fraction. -/
theorem queried_floor (low : 0 ≤ x) (high : x < 2 ^ 31 - 1) :
    (TValue.number (.fin x)).queried E = x.floor.toNat.toUInt32 := by
  obtain ⟨nonneg, small⟩ := floor_small low high
  simp only [TValue.queried, TValue.num_number, castUnsigned, trunc_floor low]
  exact if_pos ⟨nonneg, by omega⟩

theorem device_roundEven (low : 0 ≤ x) (high : x < 2 ^ 31 - 1) :
    (TValue.number (.fin x)).device E = (roundEven x).toNat.toUInt32 := by
  have nonneg := (floor_small low high).1
  have above := (roundEven_bounds x).1
  have range : -2 ^ 51 < x ∧ x < 2 ^ 51 := by
    constructor <;> linarith
  simp only [TValue.device, TValue.int, TValue.tonumber_number, luaNumber2integer]
  rw [if_pos range, toUInt32_ofInt (by omega)]

/-- Truncating and rounding meet exactly where rounding goes down: below one half,
and at one half behind an even number. -/
theorem queried_eq_device_iff (low : 0 ≤ x) (high : x < 2 ^ 31 - 1) :
    (TValue.number (.fin x)).queried E = (TValue.number (.fin x)).device E ↔
      x - x.floor < 1 / 2 ∨ x - x.floor = 1 / 2 ∧ x.floor % 2 = 0 := by
  obtain ⟨nonneg, small⟩ := floor_small low high
  obtain ⟨above, below⟩ := roundEven_bounds x
  rw [← roundEven_eq_floor_iff, queried_floor E low high, device_roundEven E low high]
  constructor
  · intro same
    have values := congrArg UInt32.toNat same
    simp only [Nat.toUInt32_eq, UInt32.toNat_ofNat'] at values
    omega
  · intro same
    rw [same]

end Number

/-! ### What a script sees of it -/

/-- `P` holds in every state a run of the library leads to. -/
def AfterRuns (E : LibEnv σ) (P : Midi → Prop) : Prop :=
  ∀ requests, Ensures (runAll (MidiRequest.perform E) requests) Midi.init (fun _ m => P m)
    fun _ _ => False

/-- `OpenMidiIn(v)` looks up `n`, opens it and registers it: it refuses exactly when
`n` is found already, and when it returns 0, the driver has been given `n` for its
callbacks and `n` is found. -/
def OpensAs (E : LibEnv σ) (v : TValue) (n : UInt32) (m : Midi) : Prop :=
  ∀ heap o, ∃ reply m', MidiRequest.perform E (.call .openMidiIn [v] heap o) m = .ok reply m' ∧
    (reply.answer = codeAnswer (-2) ↔ ∃ dev, getMidiInEntry n m = .ok (some dev) m) ∧
    (reply.answer = codeAnswer 0 →
      (∃ handle, o.opened = some handle ∧ m'.driver.inputs.head? = some ⟨handle, n, true⟩) ∧
        ∃ dev, getMidiInEntry n m' = .ok (some dev) m')

/-- `CloseMidiIn(v)` looks up `n`: it takes away what it finds, and returns an error
when it finds nothing. -/
def ClosesAs (E : LibEnv σ) (v : TValue) (n : UInt32) (m : Midi) : Prop :=
  ∀ heap o, ∃ reply m', MidiRequest.perform E (.call .closeMidiIn [v] heap o) m = .ok reply m' ∧
    ((∃ dev, getMidiInEntry n m = .ok (some dev) m ∧ reply.answer = codeAnswer 0 ∧
        getMidiInEntry n m' = .ok none m') ∨
      getMidiInEntry n m = .ok none m ∧ reply.answer = codeAnswer (-2))

/-- `GetMessage(v)` looks up `n`: it returns the oldest event of what it finds, and
nil when there is none. -/
def FetchesAs (E : LibEnv σ) (v : TValue) (n : UInt32) (m : Midi) : Prop :=
  ∀ V, Shows m V → ∀ heap o, ∃ reply m',
    MidiRequest.perform E (.call .getMessage [v] heap o) m = .ok reply m' ∧
      reply.answer = eventAnswer ((V.input n).bind fun d => d.events.getLast?)

/-- The functions for inputs mean one device by this argument. So when `OpenMidiIn`
has succeeded with it, and anything is pending, then or later, for the number the
driver was given, `GetMessage` returns the oldest event. -/
structure ReadsOneDevice (E : LibEnv σ) (v : TValue) : Prop where
  number : ∃ n, AfterRuns E fun m => OpensAs E v n m ∧ ClosesAs E v n m ∧ FetchesAs E v n m
  delivers : AfterRuns E fun m => ∀ heap o opened m₁,
    MidiRequest.perform E (.call .openMidiIn [v] heap o) m = .ok opened m₁ →
    opened.answer = codeAnswer 0 → ∃ p, m₁.driver.inputs.head? = some p ∧
      ∀ later replies m₂ V d newer ev,
        runAll (MidiRequest.perform E) later m₁ = .ok replies m₂ → Shows m₂ V →
        V.input p.instdat = some d → d.events = newer ++ [ev] → ∀ heap' o', ∃ reply m',
          MidiRequest.perform E (.call .getMessage [v] heap' o') m₂ = .ok reply m' ∧
            reply.answer = some (.inr (eventTable ev))

/-- `OpenMidiIn` succeeds with this argument, the driver delivers a message with the
number it was given, and `GetMessage` returns nil. -/
def Missed (E : LibEnv σ) (v : TValue) (heap : Heap σ) (handle : Handle) : Prop :=
  ∃ opened m₁ p m₂ V d reply m',
    MidiRequest.perform E (.call .openMidiIn [v] heap (smoothly handle)) Midi.init =
      .ok opened m₁ ∧
    opened.answer = codeAnswer 0 ∧ m₁.driver.inputs.head? = some p ∧
    MidiRequest.perform E (.receive true p.instdat 0x90) m₁ = .ok .received m₂ ∧
    (Shows m₂ V ∧ V.input p.instdat = some d ∧ d.events = [eventOf 0x90]) ∧
    MidiRequest.perform E (.call .getMessage [v] heap (smoothly handle)) m₂ = .ok reply m' ∧
    reply.answer = some (.inl .nil)

/-- The code of an answer can be read off the value. -/
theorem codeAnswer_inj {a b : Int} : codeAnswer a = codeAnswer b ↔ a = b := by
  simp [codeAnswer]

/-- What `GetMidiInEntry` finds is what the view lists. -/
theorem getMidiInEntry_found_iff {m : Midi} {V : View} (shows : Shows m V) (n : UInt32) :
    (∃ dev, getMidiInEntry n m = .ok (some dev) m) ↔ ∃ d, V.input n = some d := by
  rw [run_getMidiInEntry shows]
  cases V.input n with
  | none => simp
  | some d => simp

/-- A number under which no input is registered is not found. -/
theorem getMidiInEntry_none {m : Midi} {V : View} (shows : Shows m V) {n : UInt32}
    (absent : V.input n = none) : getMidiInEntry n m = .ok none m := by
  rw [run_getMidiInEntry shows, absent]
  rfl

section Script

variable {E : LibEnv σ} {v : TValue} {m : Midi} {V : View}

/-- `OpenMidiIn` works with the number `luaL_checkinteger` gives: it looks this
number up, registers the device under it, and hands it to the driver as the
instance of the callback. -/
theorem opensAs_device (shows : Shows m V) (isnumber : v.isnumber E.toCLib = true) :
    OpensAs E v (v.device E) m := by
  intro heap o
  obtain ⟨reply, m', V', run, performed, shows'⟩ :=
    perform_outcome E shows (.call .openMidiIn [v] heap o)
  obtain ⟨answer, heap', rfl, done⟩ := performed.call rfl isnumber
  refine ⟨_, m', run, ?_⟩
  rw [getMidiInEntry_found_iff shows]
  cases done with
  | miscounted count => exact absurd rfl count
  | asked asks => cases asks
  | openMidiIn _ opens =>
      simp only [MidiReply.answer]
      cases opens with
      | already found =>
          refine ⟨iff_of_true rfl ⟨_, found⟩, fun same => ?_⟩
          exact absurd (codeAnswer_inj.mp same) (by decide)
      | refused absent =>
          refine ⟨iff_of_false (fun same => ?_) (by simp [absent]), fun same => ?_⟩
          · exact absurd (codeAnswer_inj.mp same) (by decide)
          · exact absurd (codeAnswer_inj.mp same) (by decide)
      | noMemory absent =>
          refine ⟨iff_of_false (fun same => ?_) (by simp [absent]), fun same => ?_⟩
          · exact absurd (codeAnswer_inj.mp same) (by decide)
          · exact absurd (codeAnswer_inj.mp same) (by decide)
      | @opened handle a absent opened =>
          refine ⟨iff_of_false (fun same => ?_) (by simp [absent]), fun _ => ⟨?_, ?_⟩⟩
          · exact absurd (codeAnswer_inj.mp same) (by decide)
          · refine ⟨handle, opened, ?_⟩
            rw [shows'.driver]
            simp [Driver.run, Driver.openIn, setStarted]
          · rw [getMidiInEntry_found_iff shows', View.input_cons rfl]
            exact ⟨_, Function.update_self ..⟩

/-- And so does `CloseMidiIn`: the device it closes is the one found under this
number, and afterwards none is found there. -/
theorem closesAs_device (shows : Shows m V) (distinct : V.Distinct)
    (isnumber : v.isnumber E.toCLib = true) : ClosesAs E v (v.device E) m := by
  intro heap o
  obtain ⟨reply, m', V', run, performed, shows'⟩ :=
    perform_outcome E shows (.call .closeMidiIn [v] heap o)
  obtain ⟨answer, heap', rfl, done⟩ := performed.call rfl isnumber
  refine ⟨_, m', run, ?_⟩
  cases done with
  | miscounted count => exact absurd rfl count
  | asked asks => cases asks
  | closeMidiIn _ closes =>
      cases closes with
      | absent absent => exact .inr ⟨getMidiInEntry_none shows absent, rfl⟩
      | closed at_ =>
          obtain ⟨dev, found⟩ := (getMidiInEntry_found_iff shows _).mpr ⟨_, at_.found⟩
          refine .inl ⟨dev, found, rfl, getMidiInEntry_none shows' ?_⟩
          rw [at_.input_removed distinct rfl, Function.update_self]

/-- `GetMessage` is about the port that its argument names. -/
theorem port_getMessage (isnumber : v.isnumber E.toCLib = true) (heap : Heap σ)
    (o : MidiOutcomes) :
    (MidiRequest.call .getMessage [v] heap o).port E = some (.input (v.queried E)) :=
  if_pos isnumber

/-- `GetMessage` works with the number the cast of `luaL_checknumber` gives.
What it answers is read off the map of the devices, so two views of one memory
give the same answer. -/
theorem fetchesAs_queried (shows : Shows m V) (distinct : V.Distinct)
    (isnumber : v.isnumber E.toCLib = true) : FetchesAs E v (v.queried E) m := by
  intro W shows' heap o
  obtain ⟨reply, m', V', run, performed, -⟩ :=
    perform_outcome E shows (.call .getMessage [v] heap o)
  obtain ⟨-, answer⟩ := performed.refines distinct (port_getMessage isnumber heap o)
  refine ⟨reply, m', run, answer.trans ?_⟩
  have same : W.input (v.queried E) = V.input (v.queried E) := by
    simp only [View.input, shows'.ins_unique shows]
  have device : V.device (.input (v.queried E)) = (V.input (v.queried E)).map Input.device := rfl
  simp only [KeyedOp.answer, MidiRequest.operation, MidiRequest.act, device, same]
  cases V.input (v.queried E) with
  | none => rfl
  | some d => rfl

/-- No device number is opened twice in the state after a run, and in no state
after it. The invariant of a step, carried along the run. -/
theorem runAll_distinct {later : List (MidiRequest σ)} {replies : List (MidiReply σ)} {m' : Midi}
    (run : runAll (MidiRequest.perform E) later m = .ok replies m') (shows : Shows m V)
    (distinct : V.Distinct) : ∃ V', Shows m' V' ∧ V'.Distinct := by
  refine runAll_preserves (I := fun m => ∃ V, Shows m V ∧ V.Distinct) ?_ run ⟨V, shows, distinct⟩
  rintro s request reply t ⟨V, shows, distinct⟩ step
  obtain ⟨reply', t', V', run', performed, shows'⟩ := perform_outcome E shows request
  obtain ⟨rfl, rfl⟩ := EStateM.Result.ok.inj (step.symm.trans run')
  exact ⟨V', shows', performed.distinct distinct⟩

/-- Where both conversions give one number, the three functions are about one
device. The events need no more than that: what is pending for the number the
driver was given is found by `GetMessage`, whatever was called in between. -/
theorem readsOneDevice_of_eq (isnumber : v.isnumber E.toCLib = true)
    (same : v.queried E = v.device E) : ReadsOneDevice E v := by
  constructor
  · refine ⟨v.device E, fun requests => (run_distinct E requests).mono ?_ fun _ _ h => h⟩
    rintro replies m ⟨V, shows, distinct⟩
    refine ⟨opensAs_device shows isnumber, closesAs_device shows distinct isnumber, ?_⟩
    rw [← same]
    exact fetchesAs_queried shows distinct isnumber
  · refine fun requests => (run_distinct E requests).mono ?_ fun _ _ h => h
    rintro replies m ⟨V, shows, distinct⟩ heap o opened m₁ step ok
    obtain ⟨reply, m', run, -, registers⟩ := opensAs_device (E := E) shows isnumber heap o
    obtain ⟨rfl, rfl⟩ := EStateM.Result.ok.inj (step.symm.trans run)
    obtain ⟨⟨handle, -, head⟩, -⟩ := registers ok
    refine ⟨_, head, ?_⟩
    intro later replies m₂ W d newer ev run₂ shows₂ found pending heap' o'
    obtain ⟨V₂, shows₂', distinct₂⟩ := runAll_distinct
      (runAll_cons_ok.mpr ⟨_, _, _, step, run₂, rfl⟩) shows distinct
    obtain ⟨reply, m', run₃, answer⟩ :=
      fetchesAs_queried shows₂' distinct₂ isnumber W shows₂ heap' o'
    refine ⟨reply, m', run₃, answer.trans ?_⟩
    rw [same, found]
    simp [pending, eventAnswer]

/-- A number that is opened as one device and queried as another: the device is
opened in a fresh library, a message arrives for it, and `GetMessage` looks
under a number where nothing was ever opened. -/
theorem missed_of_ne (isnumber : v.isnumber E.toCLib = true) (differ : v.queried E ≠ v.device E)
    (heap : Heap σ) (handle : Handle) : Missed E v heap handle := by
  have empty : View.Distinct View.init := ⟨List.nodup_nil, List.nodup_nil⟩
  obtain ⟨opened, m₁, V₁, run₁, performed₁, shows₁⟩ :=
    perform_outcome E shows_init (.call .openMidiIn [v] heap (smoothly handle))
  have opens : (MidiRequest.call .openMidiIn [v] heap (smoothly handle)).port E =
      some (.input (v.device E)) := if_pos isnumber
  obtain ⟨map₁, answer₁⟩ := performed₁.refines empty opens
  have distinct₁ := performed₁.distinct empty
  have head : ∃ handle', m₁.driver.inputs.head? = some ⟨handle', v.device E, true⟩ := by
    obtain ⟨reply, m', run, -, registers⟩ :=
      opensAs_device shows_init isnumber heap (smoothly handle)
    obtain ⟨rfl, rfl⟩ := EStateM.Result.ok.inj (run₁.symm.trans run)
    obtain ⟨⟨handle', -, head⟩, -⟩ := registers answer₁
    exact ⟨handle', head⟩
  obtain ⟨handle', head⟩ := head
  obtain ⟨got, m₂, V₂, run₂, performed₂, shows₂⟩ :=
    perform_outcome E shows₁ (.receive true (v.device E) 0x90)
  obtain ⟨map₂, -⟩ := performed₂.refines distinct₁ rfl
  obtain rfl : got = .received := by cases performed₂; rfl
  obtain ⟨reply, m', run₃, answer₃⟩ :=
    fetchesAs_queried shows₂ (performed₂.distinct distinct₁) isnumber V₂ shows₂ heap
      (smoothly handle)
  have there : (V₂.input (v.device E)).map Input.device = some ⟨handle, [eventOf 0x90]⟩ := by
    change V₂.device (.input (v.device E)) = _
    rw [map₂, map₁]
    simp only [KeyedOp.apply, MidiRequest.operation, Function.update_self]
    rfl
  have elsewhere : (V₂.input (v.queried E)).map Input.device = none := by
    have other : MidiPort.input (v.queried E) ≠ .input (v.device E) := fun same =>
      differ (MidiPort.input.inj same)
    change V₂.device (.input (v.queried E)) = _
    rw [map₂, map₁]
    simp only [KeyedOp.apply, MidiRequest.operation, Function.update_of_ne other]
    rfl
  obtain ⟨d, found, device⟩ := Option.map_eq_some_iff.mp there
  refine ⟨opened, m₁, _, m₂, V₂, d, reply, m', run₁, answer₁, head, run₂,
    ⟨shows₂, found, congrArg Device.events device⟩, run₃, ?_⟩
  rw [answer₃, Option.map_eq_none_iff.mp elsewhere]
  rfl

/-- A device whose message is missed is not read as one: `OpenMidiIn` registers the
number the driver was given, and `GetMessage` does not look there. -/
theorem Missed.not_reads {heap : Heap σ} {handle : Handle} (missed : Missed E v heap handle) :
    ¬ReadsOneDevice E v := by
  rintro ⟨⟨n, always⟩, -⟩
  obtain ⟨opened, m₁, p, m₂, V, d, reply, m', run₁, ok, head, run₂, ⟨shows, found, events⟩, run₃,
    nil⟩ := missed
  have here : p.instdat = n := by
    have opens := (Ensures.ok (always []) rfl).1 heap (smoothly handle)
    obtain ⟨reply', m'', run, -, registers⟩ := opens
    obtain ⟨rfl, rfl⟩ := EStateM.Result.ok.inj (run₁.symm.trans run)
    obtain ⟨⟨handle', -, head'⟩, -⟩ := registers ok
    obtain rfl := Option.some.inj (head.symm.trans head')
    rfl
  have whole : runAll (MidiRequest.perform E)
      [.call .openMidiIn [v] heap (smoothly handle), .receive true p.instdat 0x90] Midi.init =
        .ok [opened, .received] m₂ :=
    runAll_cons_ok.mpr ⟨_, _, _, run₁, runAll_cons_ok.mpr ⟨_, _, _, run₂, rfl, rfl⟩, rfl⟩
  obtain ⟨reply', m'', run, answer⟩ :=
    (Ensures.ok (always _) whole).2.2 V shows heap (smoothly handle)
  obtain ⟨rfl, rfl⟩ := EStateM.Result.ok.inj (run₃.symm.trans run)
  rw [nil, ← here, found, Option.bind_some, events] at answer
  cases answer

end Script

/-- For every number an `int` can hold: all functions mean the same device, and its
events are found, exactly when the nearest integer is not above it. The calls start
from some Lua state. -/
theorem readsOneDevice_iff (E : LibEnv σ) (heap : Heap σ) {x : Rat} (low : 0 ≤ x)
    (high : x < 2 ^ 31 - 1) :
    ReadsOneDevice E (.number (.fin x)) ↔
      x - x.floor < 1 / 2 ∨ x - x.floor = 1 / 2 ∧ x.floor % 2 = 0 := by
  rw [← queried_eq_device_iff E low high]
  constructor
  · intro reads
    by_contra differ
    exact (missed_of_ne rfl differ heap 1).not_reads reads
  · exact readsOneDevice_of_eq rfl

/-- The half above an even number. -/
theorem readsOneDevice_iff_half : ReadsOneDevice quietEnv (.number (.fin (5 / 2))) ↔
    (5 / 2 : Rat) - (5 / 2 : Rat).floor < 1 / 2 ∨
      (5 / 2 : Rat) - (5 / 2 : Rat).floor = 1 / 2 ∧ (5 / 2 : Rat).floor % 2 = 0 :=
  readsOneDevice_iff quietEnv quietHeap (by norm_num) (by norm_num)

/-- Three quarters open device 1 and query device 0. -/
theorem threeQuarters_missed : ¬ReadsOneDevice quietEnv (.number (.fin (3 / 4))) ∧
    Missed quietEnv (.number (.fin (3 / 4))) quietHeap 7 := by
  have differ : (TValue.number (.fin (3 / 4))).queried quietEnv ≠
      (TValue.number (.fin (3 / 4))).device quietEnv := by decide +kernel
  have missed : Missed quietEnv (.number (.fin (3 / 4))) quietHeap 7 :=
    missed_of_ne rfl differ quietHeap 7
  exact ⟨missed.not_reads, missed⟩

end ProfiLua
