import ProfiLua.Midi.Runs
import ProfiLua.Serial.Transmission

/-!
The calling convention of the functions registered for Lua.

A call leaves one value on top of its arguments and returns the count 1, or it
raises an argument error before anything happened (`Conforms`). All functions
keep to this for every argument list, with two exceptions (`conforms_iff`):
`SendMessage` returns the count -1 when it does not get five arguments, and
`Send` looks the elements of a table up through its metatable, where a script
can raise any error or give elements without end.
-/

namespace ProfiLua

open Program

variable {σ ω : Type}

/-- The call returns one value on top of its arguments, or it raises an argument
error with the world as it was. -/
def Conforms (body : LibM σ ω Int) (func : TValue) (args : List TValue) (heap : Heap σ)
    (w : ω) : Prop :=
  Ensures body ⟨⟨frame func args, heap⟩, w⟩
    (fun n c => n = 1 ∧ ∃ v, c.L.stack = v :: frame func args)
    (fun e c => (∃ narg, e = .lua (.argError narg)) ∧ c.world = w)

section Convention

variable {func : TValue} {args : List TValue} {heap : Heap σ}

/-! ### The MIDI library -/

/-- Without five arguments `SendMessage` pushes a value and returns -1. -/
theorem run_plPlayNote_miscounted (E : LibEnv σ) (count : args.length ≠ 5) (m : Midi) :
    plPlayNote E ⟨⟨frame func args, heap⟩, m⟩ =
      .ok (-1) ⟨⟨.number (.fin (-1)) :: frame func args, heap⟩, m⟩ := by
  have wrong : (args.length : Int) ≠ 5 := by exact_mod_cast count
  exact ok_bind (run_onLua (run_luaGettop func args heap)) (ok_ite_true wrong (ok_bind rfl rfl))

/-- The MIDI library, in any memory that shows lists. `SendMessage` alone can
return something other than 1, and only before it has looked at an argument. -/
theorem midi_conforms_iff (E : LibEnv σ) (o : MidiOutcomes) {m : Midi} {V : View}
    (shows : Shows m V) (f : MidiFunc) :
    Conforms (f.body E o) func args heap m ↔ ¬(f = .sendMessage ∧ args.length ≠ 5) := by
  constructor
  · rintro conforms ⟨rfl, count⟩
    have result := Ensures.ok conforms (run_plPlayNote_miscounted E count m)
    exact absurd result.1 (by decide)
  · intro served
    refine Ensures.mono (body_outcome (o := o) shows f) ?_ ?_
    · rintro n c ⟨v, heap', V', same, -, done⟩
      obtain one | ⟨-, rfl, count, -⟩ := done.count
      · exact ⟨one, v, by rw [same]⟩
      · exact absurd ⟨rfl, count⟩ served
    · rintro e c ⟨⟨narg, v, error, -, -⟩, world⟩
      exact ⟨⟨narg, error⟩, world⟩

/-! ### The serial library -/

section Serial

variable {E : LibEnv σ} {w w' : Serial}

/-- Reading an argument that may be missing as an `int`. A missing one reads as
nil, and nil as 0. -/
theorem run_luaToint_any (E : LibEnv σ) (func : TValue) (args : List TValue) (heap : Heap σ)
    {narg : Nat} (pos : 1 ≤ narg) :
    ∃ i, luaToint E narg ⟨frame func args, heap⟩ = .ok i ⟨frame func args, heap⟩ := by
  have read : ∃ v, valueAt narg ⟨frame func args, heap⟩ = .ok v ⟨frame func args, heap⟩ := by
    unfold valueAt
    rw [run_bind_ok (run_get _)]
    cases index2adr ⟨frame func args, heap⟩ narg with
    | some v => exact ⟨v, rfl⟩
    | none => exact ⟨.nil, by simp only; rw [if_pos (by omega)]; rfl⟩
  obtain ⟨v, value⟩ := read
  exact ⟨_, ok_bind (ok_bind value rfl) rfl⟩

/-- The end of every function: a number is pushed and the count is 1. -/
theorem conforms_returnInt (ret : Int32) {heap' : Heap σ} :
    Ensures (returnInt ret) ⟨⟨frame func args, heap'⟩, w'⟩
      (fun n c => n = 1 ∧ ∃ v, c.L.stack = v :: frame func args)
      (fun e c => (∃ narg, e = .lua (.argError narg)) ∧ c.world = w) :=
  .step (run_onLua (run_push _ _)) (.pure ⟨rfl, _, rfl⟩)

/-- A function that does something for one count of arguments only. For any
other it returns the number it began with. -/
theorem conforms_counted {k : Int} {x : LibM σ Serial Int} {start : Int32}
    (right : Conforms x func args heap w) :
    Conforms (onLua luaGettop >>= fun n => if n = k then x else returnInt start) func args
      heap w :=
  Ensures.step (run_onLua (run_luaGettop func args heap))
    (.ite (fun _ => right) fun _ => conforms_returnInt start)

/-- Reading an argument changes nothing and cannot raise an error. -/
theorem conforms_luaToint {narg : Nat} (pos : 1 ≤ narg) {f : Int32 → LibM σ Serial Int}
    (next : ∀ i, Conforms (f i) func args heap w) :
    Conforms (onLua (luaToint E narg) >>= f) func args heap w := by
  obtain ⟨i, run⟩ := run_luaToint_any E func args heap pos
  exact Ensures.step (run_onLua run) (next i)

/-- A function that ends with one call of the serial library and its answer. -/
theorem conforms_serialCall (call : SerialCall) (ret : Int32) :
    Conforms (onWorld (serialCall call) >>= fun _ => returnInt ret) func args heap w :=
  Ensures.step (run_onWorld rfl) (conforms_returnInt ret)

theorem plSerialOnHandle_conforms (start : Int32) (call : Int32 → SerialCall) (answer : Int32) :
    Conforms (plSerialOnHandle E start call answer) func args heap w :=
  conforms_counted (conforms_luaToint (by decide) fun _ => conforms_serialCall _ _)

end Serial

/-! ### Tables with a metatable -/

section Lookups

variable (E : LibEnv σ) (A : SerialAnswers)

/-- Reading the elements of a table from index `i` on meets one that cannot be
sent within so many lookups, and none of them raises an error. -/
def Listable (E : Env σ) (t : Nat) : Nat → Nat → Heap σ → Prop
  | 0, _, _ => False
  | rounds + 1, i, heap =>
      ∃ v heap', entry E t (.number (.ofNat i)) heap = some (v, heap') ∧
        (v.sendable = true → Listable E t rounds (i + 1) heap')

/-- More lookups find the same end. -/
theorem Listable.mono {E : Env σ} {t rounds more i : Nat} {heap : Heap σ}
    (listable : Listable E t rounds i heap) (le : rounds ≤ more) : Listable E t more i heap := by
  induction rounds generalizing more i heap with
  | zero => exact listable.elim
  | succ rounds ih =>
      obtain ⟨more, rfl⟩ : ∃ k, more = k + 1 := ⟨more - 1, by omega⟩
      obtain ⟨v, heap', read, rest⟩ := listable
      exact ⟨v, heap', read, fun goesOn => ih (rest goesOn) (by omega)⟩

/-- A plain table can be read: it ends, one lookup after its size at the latest.
-/
theorem FiniteTable.listable (E : Env σ) {t size : Nat} {heap : Heap σ}
    (table : FiniteTable heap t size) {i rounds : Nat} (enough : size + 1 < i + rounds)
    (some : 0 < rounds) : Listable E t rounds i heap := by
  induction rounds generalizing i with
  | zero => exact absurd some (Nat.lt_irrefl 0)
  | succ rounds ih =>
      refine ⟨elementAt heap t i, heap, ?_, fun goesOn => ?_⟩
      · rw [entry, if_pos (.inr table.plain)]
        rfl
      · by_cases last : 0 < rounds
        · exact ih (by omega) last
        · rw [table.finite i (by omega)] at goesOn
          exact absurd goesOn (by decide)

variable {t : Nat}

variable {E A}

/-- Sending the elements from index `i` on comes to an end exactly when they can
be read. By induction on the lookups; each round reads one element, sends it and
takes it off the stack. -/
theorem sendTable_ends_iff {h : TValue} {Q : Int32 → Calling σ Serial → Prop}
    {R : LibStop → Calling σ Serial → Prop}
    (ended : ∀ ret heap w, Q ret ⟨⟨frame func [h, .table t], heap⟩, w⟩)
    (endless : ∀ c, ¬R .endless c) (raised : ∀ error c, ¬R (.lua (.raised error)) c)
    (rounds i : Nat) (ret : Int32) (heap : Heap σ) (w : Serial) :
    Ensures (sendTable E A rounds i ret) ⟨⟨frame func [h, .table t], heap⟩, w⟩ Q R ↔
      Listable E.toEnv t rounds i heap := by
  induction rounds generalizing i ret heap w with
  | zero => exact (ensures_throw _).trans (iff_of_false (endless _) id)
  | succ rounds ih =>
      have table : valueAt 2 ⟨.number (.ofNat i) :: frame func [h, .table t], heap⟩ =
          .ok (.table t) ⟨.number (.ofNat i) :: frame func [h, .table t], heap⟩ := by
        rw [frame_above]
        exact run_valueAt (index2adr_arg (by decide) rfl)
      refine (ensures_step (run_onLua (run_push _ _))).trans ?_
      cases read : entry E.toEnv t (.number (.ofNat i)) heap with
      | none =>
          obtain ⟨error, l, raises⟩ := run_luaVGettable_raises read
            (.number (.ofNat i) :: frame func [h, .table t])
          have get : luaGettable E.toEnv 2
              ⟨.number (.ofNat i) :: frame func [h, .table t], heap⟩ =
                .error (.raised error) l := by
            unfold luaGettable
            rw [run_bind_ok table, run_bind_ok run_valueAt_top, run_bind, raises]
          refine (ensures_stop (run_onLua_error get)).trans (iff_of_false (raised _ _) ?_)
          rintro ⟨v, heap', found, -⟩
          rw [read] at found
          cases found
      | some found =>
          obtain ⟨v, heap'⟩ := found
          have get : luaGettable E.toEnv 2
              ⟨.number (.ofNat i) :: frame func [h, .table t], heap⟩ =
                .ok ⟨⟩ ⟨v :: frame func [h, .table t], heap'⟩ :=
            ok_bind table (ok_bind run_valueAt_top (ok_bind (run_luaVGettable_entry read _) rfl))
          have next : Listable E.toEnv t (rounds + 1) i heap ↔
              (v.sendable = true → Listable E.toEnv t rounds (i + 1) heap') := by
            simp only [Listable, read, Option.some.injEq, Prod.mk.injEq]
            constructor
            · rintro ⟨_, _, ⟨rfl, rfl⟩, rest⟩
              exact rest
            · exact fun rest => ⟨v, heap', ⟨rfl, rfl⟩, rest⟩
          refine ((ensures_step (run_onLua get)).trans
            (ensures_step (run_onLua (run_luaType_top _ _ _)))).trans (Iff.trans ?_ next.symm)
          cases v with
          | number d =>
              have goesOn : (TValue.number d).sendable = true := rfl
              rw [if_pos (show (TValue.number d).type = .number from rfl)]
              refine (ensures_step (run_onLua (run_luaToint_above rfl _))).trans ?_
              refine (ensures_step (run_onLua run_luaToint_top)).trans ?_
              refine (ensures_step (run_onWorld (run_sendByte _ _))).trans ?_
              refine (ensures_step (run_onLua run_luaPop_one)).trans ?_
              simpa only [goesOn, forall_const] using ih _ _ _ _
          | string s =>
              have goesOn : (TValue.string s).sendable = true := rfl
              rw [if_neg (by simp [TValue.type]),
                if_pos (show (TValue.string s).type = .string from rfl)]
              refine (ensures_step (run_onLua (run_stringAt_top s _ _))).trans ?_
              refine (ensures_step (run_sendString_above rfl _ s ret)).trans ?_
              refine (ensures_step (run_onLua run_luaPop_one)).trans ?_
              simpa only [goesOn, forall_const] using ih _ _ _ _
          | _ =>
              rw [if_neg (by simp [TValue.type]), if_neg (by simp [TValue.type])]
              refine (ensures_step (run_onLua run_luaPop_one)).trans ((ensures_pure _).trans ?_)
              exact iff_of_true (ended _ _ _) (by simp [TValue.sendable, TValue.type])

/-- `Send` of a table keeps to the convention exactly when its elements can be
read: an error of a metamethod is no argument error, and a table without end
leaves no result. -/
theorem plSerialSend_table_conforms_iff {h : TValue} (rounds : Nat) (heap : Heap σ) (w : Serial) :
    Conforms (plSerialSend E A rounds) func [h, .table t] heap w ↔
      Listable E.toEnv t rounds 1 heap := by
  have two : (([h, .table t] : List TValue).length : Int) = 2 := rfl
  refine (ensures_step (run_onLua (run_luaGettop func [h, .table t] heap))).trans ?_
  rw [if_pos two]
  refine (ensures_step (run_onLua (run_luaType_arg (by decide) rfl))).trans ?_
  refine (ensures_bind _ _).trans (sendTable_ends_iff (fun ret heap' w' => ?_) ?_ ?_ rounds 1 0
    heap w)
  · exact conforms_returnInt ret
  · rintro c ⟨⟨narg, ⟨⟩⟩, -⟩
  · rintro error c ⟨⟨narg, ⟨⟩⟩, -⟩

end Lookups

/-- `Send` of anything else always keeps to it. -/
theorem plSerialSend_conforms (E : LibEnv σ) (A : SerialAnswers) {rounds : Nat} (some : 0 < rounds)
    (w : Serial) (noTable : ∀ h t, args ≠ [h, .table t]) :
    Conforms (plSerialSend E A rounds) func args heap w := by
  by_cases two : args.length = 2
  · obtain ⟨h, v, rfl⟩ := List.length_eq_two.mp two
    have finite : ∀ t, v = .table t → FiniteTable heap t 0 := by
      rintro t rfl
      exact absurd rfl (noTable h t)
    exact .of_ok (run_plSerialSend E A func h v heap w finite some) ⟨rfl, _, rfl⟩
  · have other : (args.length : Int) ≠ 2 := by exact_mod_cast two
    exact Ensures.step (run_onLua (run_luaGettop func args heap))
      (.ite (fun same => absurd same other) fun _ => conforms_returnInt 0)

/-- A function of the serial library, given enough rounds, keeps to the
convention exactly when it does not have to read a table that cannot be read.
That can be said of `Send` alone. -/
theorem serial_conforms_iff (E : LibEnv σ) (A : SerialAnswers) (w : Serial) (f : SerialFunc) :
    (∃ enough, ∀ rounds, enough ≤ rounds → Conforms (f.body E A rounds) func args heap w) ↔
      ∀ h t, f = .send → args = [h, .table t] → ∃ rounds, Listable E.toEnv t rounds 1 heap := by
  cases f with
  | send =>
      constructor
      · rintro ⟨enough, conforms⟩ h t - rfl
        exact ⟨enough, (plSerialSend_table_conforms_iff enough heap w).mp
          (conforms enough (Nat.le_refl _))⟩
      · intro listable
        by_cases table : ∃ h t, args = [h, .table t]
        · obtain ⟨h, t, rfl⟩ := table
          obtain ⟨enough, reads⟩ := listable h t rfl rfl
          exact ⟨enough, fun rounds le =>
            (plSerialSend_table_conforms_iff rounds heap w).mpr (reads.mono le)⟩
        · refine ⟨1, fun rounds some => plSerialSend_conforms E A some w fun h t same => ?_⟩
          exact table ⟨h, t, same⟩
  | mount => exact iff_of_true ⟨0, fun _ _ => conforms_counted (conforms_serialCall _ _)⟩ nofun
  | checkPort | openPort =>
      refine iff_of_true ⟨0, fun _ _ => conforms_counted ?_⟩ nofun
      exact conforms_luaToint (by decide) fun _ => conforms_luaToint (by decide) fun _ =>
        conforms_serialCall _ _
  | config =>
      refine iff_of_true ⟨0, fun _ _ => conforms_counted ?_⟩ nofun
      exact conforms_luaToint (by decide) fun _ => conforms_luaToint (by decide) fun _ =>
        conforms_luaToint (by decide) fun _ => conforms_luaToint (by decide) fun _ =>
          conforms_luaToint (by decide) fun _ => conforms_serialCall _ _
  | _ => exact iff_of_true ⟨0, fun _ _ => plSerialOnHandle_conforms _ _ _⟩ nofun

end Convention

/-- Both libraries: every call keeps to the convention, except `SendMessage`
without five arguments and `Send` of a table that cannot be listed. -/
theorem conforms_iff (E : LibEnv σ) (func : TValue) (args : List TValue) (heap : Heap σ) {m : Midi}
    {V : View} (shows : Shows m V) (w : Serial) :
    (∀ f o, Conforms (MidiFunc.body E o f) func args heap m ↔
      ¬(f = .sendMessage ∧ args.length ≠ 5)) ∧
    ∀ f A, (∃ enough, ∀ rounds, enough ≤ rounds →
        Conforms (SerialFunc.body E A rounds f) func args heap w) ↔
      ∀ h t, f = .send → args = [h, .table t] → ∃ rounds, Listable E.toEnv t rounds 1 heap :=
  ⟨fun f o => midi_conforms_iff E o shows f, fun f A => serial_conforms_iff E A w f⟩

/-- Device 0 is opened both ways. -/
def bothWays : List (MidiRequest Unit) :=
  [.call .openMidiOut [.number (.ofNat 0)] quietHeap (smoothly 1),
    .call .openMidiIn [.number (.ofNat 0)] quietHeap (smoothly 2)]

/-- The arguments of `SendMessage`: note 60 on channel 1 of device 0. -/
def playArgs : List TValue := [0, 1, 60, 100, 0x90].map fun n => .number (.ofNat n)

/-- Device 0 is found both ways. -/
def FoundBothWays (m : Midi) : Prop :=
  Ensures (getMidiInEntry 0) m (fun dev _ => dev.isSome) (fun _ _ => False) ∧
    Ensures (getMidiOutEntry 0) m (fun dev _ => dev.isSome) fun _ _ => False

instance (m : Midi) : Decidable (FoundBothWays m) :=
  inferInstanceAs (Decidable (Ensures (getMidiInEntry 0) m _ _ ∧
    Ensures (getMidiOutEntry 0) m _ _))

theorem bothWays_open :
    Ensures (runAll (MidiRequest.perform quietEnv) bothWays) Midi.init (fun _ m => FoundBothWays m)
      fun _ _ => False := by
  decide +kernel

/-- There `SendMessage` with five arguments keeps to the convention, and so does `Send`
of a table of a number and a string. -/
theorem conforms_iff_bothWays :
    Ensures (runAll (MidiRequest.perform quietEnv) bothWays) Midi.init
      (fun _ m => FoundBothWays m ∧
        Conforms (MidiFunc.sendMessage.body quietEnv (smoothly 0)) .nil playArgs quietHeap m ∧
        ∃ enough, ∀ rounds, enough ≤ rounds →
          Conforms (SerialFunc.send.body quietEnv allSent rounds) .nil
            [.number (.fin 1), .table 1] (listHeap [.number (.fin 65), .string [66]]) ⟨[]⟩)
      fun _ _ => False := by
  refine ((run_shows quietEnv bothWays).and bothWays_open).mono
    (fun _ m ⟨⟨V, shows⟩, found⟩ => ⟨found, ?_, ?_⟩) fun _ _ h => h.1
  · have midi := (conforms_iff quietEnv .nil playArgs quietHeap shows ⟨[]⟩).1
    exact (midi .sendMessage (smoothly 0)).mpr (by decide)
  · have serial := (conforms_iff quietEnv .nil [.number (.fin 1), .table 1]
      (listHeap [.number (.fin 65), .string [66]]) shows ⟨[]⟩).2
    refine (serial .send allSent).mpr ?_
    rintro h t - ⟨⟩
    exact ⟨4, (listHeap_lists [.number (.fin 65), .string [66]]).finite.listable quietEnv.toEnv
      (by decide) (by decide)⟩

/-- `promidi.SendMessage()` returns -1, which `luaD_precall` takes for a yield.
-/
theorem sendMessage_yields :
    ¬Conforms (MidiFunc.sendMessage.body quietEnv (smoothly 1)) .nil [] quietHeap Midi.init ∧
      ∃ c, luaDPrecall (MidiFunc.sendMessage.body quietEnv (smoothly 1))
        ⟨⟨frame .nil [], quietHeap⟩, Midi.init⟩ = .ok none c := by
  have none : ([] : List TValue).length ≠ 5 := by decide
  have run : plPlayNote quietEnv ⟨⟨frame .nil [], quietHeap⟩, Midi.init⟩ = _ :=
    run_plPlayNote_miscounted quietEnv none Midi.init
  constructor
  · intro conforms
    exact absurd (Ensures.ok conforms run).1 (by decide)
  · exact ⟨_, run_luaDPrecall_yield (by decide) run⟩

end ProfiLua
