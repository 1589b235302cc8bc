import ProfiLua.Midi.Calls
import ProfiLua.Program.Run

/-!
Runs of the MIDI library: calls from Lua and deliveries by the driver, in any
order, each as one step.

A call that raises an argument error ends there; the lists stay, and later
calls find them. `perform_outcome` says what one step does; a run is never at
fault (`run_shows`).
-/

namespace ProfiLua

open Program

variable {σ : Type}

/-- One step: a script calls a function of `promidi`, or the driver delivers a
message. A call may come from any Lua state. -/
inductive MidiRequest (σ : Type) where
  | call (f : MidiFunc) (args : List TValue) (heap : Heap σ) (o : MidiOutcomes)
  | receive (malloc : Bool) (instdat msgpar : UInt32)

inductive MidiReply (σ : Type) where
  | returned (values : List TValue) (heap : Heap σ)
  | yielded
  | raised (narg : Nat)
  | received

/-- The values a call returned. -/
def MidiReply.values : MidiReply σ → Option (List TValue)
  | .returned values _ => some values
  | _ => none

/-- Only a call that returned has values. -/
theorem MidiReply.returned_of_values {reply : MidiReply σ} {values : List TValue}
    (h : reply.values = some values) : ∃ heap, reply = .returned values heap := by
  cases reply with
  | returned _ heap =>
      cases h
      exact ⟨heap, rfl⟩
  | _ => cases h

/-- Performs one step. -/
def MidiRequest.perform (E : LibEnv σ) : MidiRequest σ → WorldM Midi (MidiReply σ)
  | .call f args heap o => fun m =>
      match luaDPrecall (f.body E o) ⟨⟨frame (.function 0) args, heap⟩, m⟩ with
      | .ok (some values) c => .ok (.returned values c.L.heap) c.world
      | .ok none c => .ok .yielded c.world
      | .error (.lua (.argError narg)) c => .ok (.raised narg) c.world
      | .error _ c => .error () c.world
  | .receive malloc instdat msgpar => do
      midiReceive malloc instdat msgpar
      return .received

/-- What one step does to the view. -/
inductive Performed (E : LibEnv σ) (V : View) : MidiRequest σ → MidiReply σ → View → Prop where
  | raised {f : MidiFunc} {args : List TValue} {heap : Heap σ} {o : MidiOutcomes} {narg : Nat}
      {v : TValue} (arg : args[narg - 1]? = some v) (number : v.isnumber E.toCLib = false) :
      Performed E V (.call f args heap o) (.raised narg) V
  | returned {f : MidiFunc} {args : List TValue} {heap heap' : Heap σ} {o : MidiOutcomes}
      {v : TValue} {V' : View} (done : Done E o heap V f args 1 v heap' V') :
      Performed E V (.call f args heap o) (.returned [v] heap') V'
  | yielded {args : List TValue} {heap : Heap σ} {o : MidiOutcomes} (count : args.length ≠ 5) :
      Performed E V (.call .sendMessage args heap o) .yielded V
  | received {malloc : Bool} {instdat msgpar : UInt32} {V' : View}
      (receives : Receives malloc instdat msgpar V V') :
      Performed E V (.receive malloc instdat msgpar) .received V'

/-- The two counts a completed call can return. -/
theorem Done.count {E : LibEnv σ} {o : MidiOutcomes} {heap heap' : Heap σ} {V V' : View}
    {f : MidiFunc} {args : List TValue} {n : Int} {v : TValue}
    (done : Done E o heap V f args n v heap' V') :
    n = 1 ∨ n = -1 ∧ f = .sendMessage ∧ args.length ≠ 5 ∧ V' = V := by
  cases done with
  | miscounted count returns =>
      cases f with
      | sendMessage => exact .inr ⟨returns, rfl, count, rfl⟩
      | _ => exact .inl returns
  | _ => exact .inl rfl

/-- One step from a memory that shows lists: it is performed, it does to the view
what `Performed` says, and the memory shows lists again. -/
theorem perform_outcome (E : LibEnv σ) {m : Midi} {V : View} (shows : Shows m V)
    (request : MidiRequest σ) :
    ∃ reply m' V', request.perform E m = .ok reply m' ∧ Performed E V request reply V' ∧
      Shows m' V' := by
  cases request with
  | receive malloc instdat msgpar =>
      obtain ⟨m', V', run, receives, shows'⟩ := midiReceive_outcome shows malloc instdat msgpar
      exact ⟨_, m', V', ok_bind run rfl, .received receives, shows'⟩
  | call f args heap o =>
      have body : Ensures (f.body E o) ⟨⟨frame (.function 0) args, heap⟩, m⟩ _ _ :=
        body_outcome shows f
      cases run : f.body E o ⟨⟨frame (.function 0) args, heap⟩, m⟩ with
      | error e c =>
          obtain ⟨⟨narg, v, rfl, arg, number⟩, world⟩ := body.error run
          refine ⟨_, m, V, ?_, .raised arg number, shows⟩
          simp only [MidiRequest.perform, run_luaDPrecall_error run, world]
      | ok n c =>
          obtain ⟨⟨stack, heap'⟩, m'⟩ := c
          obtain ⟨v, heap'', V', same, shows', done⟩ := body.ok run
          cases same
          obtain rfl | ⟨rfl, rfl, count, rfl⟩ := done.count
          · refine ⟨_, m', V', ?_, .returned done, shows'⟩
            simp only [MidiRequest.perform, run_luaDPrecall run]
          · refine ⟨_, m', V', ?_, .yielded count, shows'⟩
            simp only [MidiRequest.perform, run_luaDPrecall_yield (by decide) run]

/-- No run is at fault, and after each the memory shows lists. -/
theorem run_shows (E : LibEnv σ) (requests : List (MidiRequest σ)) :
    Ensures (runAll (MidiRequest.perform E) requests) Midi.init (fun _ m => ∃ V, Shows m V)
      fun _ _ => False := by
  refine Ensures.runAll_history (C := fun _ _ => True) (I := fun _ m => ∃ V, Shows m V)
    (fun _ request m _ ⟨V, shows⟩ => ?_) (Along.trivially requests _) []
    ⟨_, shows_init⟩
  obtain ⟨reply, m', V', run, _, shows'⟩ := perform_outcome E shows request
  exact .of_ok run ⟨V', shows'⟩

end ProfiLua
