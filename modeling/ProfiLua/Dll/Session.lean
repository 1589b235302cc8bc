import ProfiLua.Dll.Frame

/-!
Sessions: what each exported function does to `L`, `gERROR` and the start
override, and when a host that keeps to the protocol never makes the DLL use a
NULL state.

A simulation is started by `CSimStart`, run by `CCalculateEx` and ended by
`CSimStop`; counts and names are asked in between. The real start waits for the
first `CCalculateEx`, so a simulation that is stopped before it has no Lua state
(`runCalls_avoids_null_iff`).
-/

namespace ProfiLua

open Program

variable {σ : Type} (E : Env σ)

/-! ### The protocol of the host -/

/-- Where the host is in its simulation. -/
inductive Phase where
  | idle
  | started
  | running
deriving DecidableEq

/-- The calls the host may make in a phase, and the phase they lead to. -/
def Phase.next : Phase → HostCall → Option Phase
  | .idle, ⟨_, .cSimStart⟩ => some .started
  | .idle, ⟨_, .cCalculateEx⟩ => none
  | .idle, ⟨_, .cSimStop⟩ => none
  | .idle, _ => some .idle
  | .started, ⟨_, .cCalculateEx⟩ => some .running
  | .started, ⟨_, .cSimStop⟩ => some .idle
  | .running, ⟨_, .cCalculateEx⟩ => some .running
  | .running, ⟨_, .cSimStop⟩ => some .idle
  | _, _ => none

/-- The calls of one or more sessions, each run before it is stopped, with no
query in between. -/
def Phase.session : Phase → HostCall → Option Phase
  | .idle, ⟨_, .cSimStart⟩ => some .started
  | .started, ⟨_, .cCalculateEx⟩ => some .running
  | .running, ⟨_, .cCalculateEx⟩ => some .running
  | .running, ⟨_, .cSimStop⟩ => some .idle
  | _, _ => none

/-- How far a session is: its steps so far are counted. -/
inductive Progress where
  | ready
  | pending
  | after (steps : Nat)
  | ended (steps : Nat)
deriving DecidableEq

/-- The calls of one session that is run before it is stopped. -/
def Progress.next : Progress → HostCall → Option Progress
  | .ready, ⟨_, .cSimStart⟩ => some .pending
  | .pending, ⟨_, .cCalculateEx⟩ => some (.after 1)
  | .after k, ⟨_, .cCalculateEx⟩ => some (.after (k + 1))
  | .after k, ⟨_, .cSimStop⟩ => some (.ended k)
  | _, _ => none

/-- What the three globals say in each phase. -/
def Phase.Inv : Phase → Dll σ → Prop
  | .idle, s => s.L = none
  | .started, s => s.L = none ∧ s.gCSimStartOverride ≠ 0
  | .running, s => s.gCSimStartOverride = 0 ∧ (s.gERROR = 0 → s.L.isSome)

/-! ### Count queries -/

/-- A frame that does not look at what a count query stores. -/
structure QueryFrame (Allowed : Event → Prop) (R : Dll σ → Dll σ → Prop) : Prop
    extends OpeningFrame Allowed R where
  gFileNum : ∀ s n, R s { s with gFileNum := n }
  counts : ∀ s ins outs, R s { s with gNumInputs := ins, gNumOutputs := outs }
  raised : ∀ s, R s { s with gERROR := 1 }

/-- A frame for every query. -/
structure AskFrame (Allowed : Event → Prop) (R : Dll σ → Dll σ → Prop) : Prop
    extends QueryFrame Allowed R, NameFrame Allowed R

/-- What a query leaves of a session: it may raise the error flag but never
takes it back. -/
structure SameSession (s t : Dll σ) : Prop where
  gConsole : t.gConsole = s.gConsole
  gConsoleTop : t.gConsoleTop = s.gConsoleTop
  console : t.console = s.console
  gCSimStartOverride : t.gCSimStartOverride = s.gCSimStartOverride
  host : t.host = s.host
  gERROR : s.gERROR ≠ 0 → t.gERROR ≠ 0
  trace : Grows Event.OfQuery s t

/-- No query touches the console, the override or the host's arrays, and none takes
an error back. -/
theorem SameSession.askFrame : AskFrame Event.OfQuery (SameSession (σ := σ)) where
  refl := fun s => ⟨rfl, rfl, rfl, rfl, rfl, id, .refl _ s⟩
  trans := fun _ _ _ h k =>
    ⟨k.gConsole.trans h.gConsole, k.gConsoleTop.trans h.gConsoleTop, k.console.trans h.console,
      k.gCSimStartOverride.trans h.gCSimStartOverride, k.host.trans h.host,
      fun error => k.gERROR (h.gERROR error), h.trace.trans k.trace⟩
  setL := fun s _ => ⟨rfl, rfl, rfl, rfl, rfl, id, .of_same rfl rfl⟩
  markers := fun s _ _ => ⟨rfl, rfl, rfl, rfl, rfl, id, .of_same rfl rfl⟩
  balanced := fun s _ => ⟨rfl, rfl, rfl, rfl, rfl, id, .of_same rfl rfl⟩
  epoch := fun s => ⟨rfl, rfl, rfl, rfl, rfl, id, .of_epoch _ s⟩
  note := fun s _ allowed => ⟨rfl, rfl, rfl, rfl, rfl, id, .of_note s allowed⟩
  gFileNum := fun s _ => ⟨rfl, rfl, rfl, rfl, rfl, id, .of_same rfl rfl⟩
  counts := fun s _ _ => ⟨rfl, rfl, rfl, rfl, rfl, id, .of_same rfl rfl⟩
  raised := fun s => ⟨rfl, rfl, rfl, rfl, rfl, fun _ => by simp, .of_same rfl rfl⟩

section Counts

variable {mode : Mode} {Allowed : Event → Prop} {R : Dll σ → Dll σ → Prop}

/-- Reading a count is two API calls and one update, of the two counts alone. -/
theorem readCount_within (F : Frame Allowed R) (may : mode ≠ .closed)
    {store : UChar → Dll σ → Dll σ} (same : ∀ n s, (store n s).L = s.L)
    (stores : ∀ n s, R s (store n s)) : Within mode R (readCount E store) :=
  .bind F (.onL F may _) fun _ => .ite (.pure F _)
    (.bind F (.onL F may _) fun _ => .modify (same _) (stores _))

/-- A count query opens a state of its own and closes it again, unless there is no
memory for it, and then it flags an error. -/
theorem countQuery_within (F : QueryFrame Allowed R) (hA : ∀ e : Event, e.OfQuery → Allowed e)
    (ne : mode ≠ .opened) (name : String) {store : UChar → Dll σ → Dll σ}
    (same : ∀ n s, (store n s).L = s.L) (stores : ∀ n s, R s (store n s)) :
    Within mode R (countQuery E name store) := by
  have F' := F.toFrame
  refine .bind F' (.modify (fun _ => rfl) fun s => F.gFileNum s _) fun _ s _ => ?_
  refine (openLuaScript_outcome E F.toOpeningFrame hA .query (hA _ trivial) s).bind
    fun opened t ⟨live, first⟩ => ?_
  refine .ite (fun yes => ?_) fun no => ?_
  · have read : Within .opened R (onL (luaGetglobal E name)) := .onL F' (by simp) _
    refine (F'.after first (read.live (live.trans yes))).bind fun _ u ⟨live, second⟩ => ?_
    have count : Within .opened R (readCount E store) :=
      readCount_within E F' (by simp) same stores
    refine (F'.after second (count.live live)).bind fun _ v ⟨_, third⟩ => ?_
    exact (closeLuaScript_outcome F.toOpeningFrame (hA _ trivial) v).mono
      (fun _ w ⟨gone, last⟩ => ⟨Mode.holds_none ne gone, F.trans _ _ _ third last⟩)
      (fun _ _ h => h)
  · refine .of_ok (run_setError 1 t) ⟨Mode.holds_none ne (by simpa [no] using live), ?_⟩
    exact F.trans _ _ _ first (F.raised t)

/-- The query for the number of inputs stays in every frame that does not look
at the counts. -/
theorem cNumInputsEx_within (F : QueryFrame Allowed R) (hA : ∀ e : Event, e.OfQuery → Allowed e)
    (ne : mode ≠ .opened) : Within mode R (cNumInputsEx E) :=
  .bind F.toFrame (countQuery_within E F hA ne _ (fun _ _ => rfl)
    fun n s => F.counts s n s.gNumOutputs) fun _ => .bind F.toFrame (.get F.toFrame)
      fun _ => .pure F.toFrame _

theorem cNumOutputsEx_within (F : QueryFrame Allowed R) (hA : ∀ e : Event, e.OfQuery → Allowed e)
    (ne : mode ≠ .opened) : Within mode R (cNumOutputsEx E) :=
  .bind F.toFrame (countQuery_within E F hA ne _ (fun _ _ => rfl)
    fun n s => F.counts s s.gNumInputs n) fun _ => .bind F.toFrame (.get F.toFrame)
      fun _ => .pure F.toFrame _

end Counts

/-- A query for a count or a name. -/
def Entry.IsQuery : Entry → Prop
  | .cSimStart => False
  | .cCalculateEx => False
  | .cSimStop => False
  | _ => True

/-- All four queries at once, for any frame that does not look at what they change. -/
theorem Entry.query_within {mode : Mode} {Allowed : Event → Prop} {R : Dll σ → Dll σ → Prop}
    (F : AskFrame Allowed R) (hA : ∀ e : Event, e.OfQuery → Allowed e) (ne : mode ≠ .opened)
    {entry : Entry} (query : entry.IsQuery) : Within mode R (entry.perform E) := by
  have F' := F.toFrame
  cases entry with
  | cNumInputsEx => exact .bind F' (cNumInputsEx_within E F.toQueryFrame hA ne) fun _ => .pure F' _
  | cNumOutputsEx =>
      exact .bind F' (cNumOutputsEx_within E F.toQueryFrame hA ne) fun _ => .pure F' _
  | getInputName channel =>
      exact .bind F' (getInputName_within E F.toNameFrame hA ne channel) fun _ => .pure F' _
  | getOutputName channel =>
      exact .bind F' (getOutputName_within E F.toNameFrame hA ne channel) fun _ => .pure F' _
  | cSimStart => exact query.elim
  | cCalculateEx => exact query.elim
  | cSimStop => exact query.elim

/-! ### The debug console -/

/-- The console events. -/
def Event.OfConsole : Event → Prop
  | .consoleOn => True
  | .consoleOff => True
  | _ => False

/-- `gConsole` says whether the window is open. -/
def ConsoleAgrees (s : Dll σ) : Prop := s.console = true ↔ s.gConsole = 1

/-- The console steps change nothing but the console. -/
structure ConsoleOnly (s t : Dll σ) : Prop where
  L : t.L = s.L
  gNumInputs : t.gNumInputs = s.gNumInputs
  gNumOutputs : t.gNumOutputs = s.gNumOutputs
  gERROR : t.gERROR = s.gERROR
  gFileNum : t.gFileNum = s.gFileNum
  gInStrMarker : t.gInStrMarker = s.gInStrMarker
  gOutStrMarker : t.gOutStrMarker = s.gOutStrMarker
  gCSimStartOverride : t.gCSimStartOverride = s.gCSimStartOverride
  host : t.host = s.host
  epoch : t.epoch = s.epoch
  balanced : t.balanced = s.balanced
  trace : Grows Event.OfConsole s t
  agrees : ConsoleAgrees s → ConsoleAgrees t

theorem ConsoleOnly.refl (s : Dll σ) : ConsoleOnly s s :=
  ⟨rfl, rfl, rfl, rfl, rfl, rfl, rfl, rfl, rfl, rfl, rfl, .refl _ s, id⟩

theorem ConsoleOnly.trans {s t u : Dll σ} (h : ConsoleOnly s t) (k : ConsoleOnly t u) :
    ConsoleOnly s u :=
  ⟨k.L.trans h.L, k.gNumInputs.trans h.gNumInputs, k.gNumOutputs.trans h.gNumOutputs,
    k.gERROR.trans h.gERROR, k.gFileNum.trans h.gFileNum, k.gInStrMarker.trans h.gInStrMarker,
    k.gOutStrMarker.trans h.gOutStrMarker, k.gCSimStartOverride.trans h.gCSimStartOverride,
    k.host.trans h.host, k.epoch.trans h.epoch, k.balanced.trans h.balanced,
    h.trace.trans k.trace, fun agrees => k.agrees (h.agrees agrees)⟩

/-- Opening the window sets the flag that says so. -/
theorem ConsoleOnly.consoleOn (s : Dll σ) :
    ConsoleOnly s { debugConsoleOn s with gConsole := 1, gConsoleTop := 0 } :=
  ⟨rfl, rfl, rfl, rfl, rfl, rfl, rfl, rfl, rfl, rfl, rfl,
    .of_noted rfl rfl (by simp [Event.OfConsole]), fun _ => by
      simp [ConsoleAgrees, debugConsoleOn, Dll.note]⟩

theorem ConsoleOnly.consoleOff (s : Dll σ) :
    ConsoleOnly s { debugConsoleOff s with gConsole := 0, gConsoleTop := 0 } :=
  ⟨rfl, rfl, rfl, rfl, rfl, rfl, rfl, rfl, rfl, rfl, rfl,
    .of_noted rfl rfl (by simp [Event.OfConsole]), fun _ => by
      simp [ConsoleAgrees, debugConsoleOff, Dll.note]⟩

section Console

variable {A : Stop → Dll σ → Prop}

/-- The start opens the window whatever the flag says, if the pin of the console
is high. -/
theorem consoleStart_outcome (s : Dll σ) :
    Ensures consoleStart s (fun _ t => ConsoleOnly s t) A := by
  refine .modify ?_
  split
  · exact .consoleOn s
  · exact .refl s

/-- A step opens the window if it is closed, and never closes it. Then it counts
`gConsoleTop` up, once. -/
theorem consoleStep_outcome (s : Dll σ) :
    Ensures consoleStep s (fun _ t => ConsoleOnly s t) A := by
  have on : Ensures (modify fun s : Dll σ =>
      if s.host.consoleHigh ∧ s.gConsole = 0 then
        { debugConsoleOn s with gConsole := 1, gConsoleTop := 0 }
      else s) s (fun _ t => ConsoleOnly s t) A := by
    refine .modify ?_
    split
    · exact .consoleOn s
    · exact .refl s
  refine on.bind fun _ t first => .modify (first.trans ?_)
  split
  · exact ⟨rfl, rfl, rfl, rfl, rfl, rfl, rfl, rfl, rfl, rfl, rfl, .of_same rfl rfl, id⟩
  · exact .refl t

/-- After `CSimStop` the console flag is down, whatever the pin is. -/
theorem consoleStop_outcome (s : Dll σ) :
    Ensures consoleStop s (fun _ t => ConsoleOnly s t ∧ t.gConsole ≠ 1) A := by
  refine .modify ?_
  split
  · exact ⟨.consoleOff s, by simp⟩
  · rename_i off
    exact ⟨.refl s, off⟩

end Console

/-! ### Any exported function -/

/-- A preorder that a step and a stop stay in. -/
structure SessionFrame (R : Dll σ → Dll σ → Prop) : Prop extends
    OpeningFrame (fun _ => True) R, OutputFrame (fun _ => True) R where
  console : ∀ s t, ConsoleOnly s t → R s t

/-- A preorder that every exported function stays in. -/
structure EntryFrame (R : Dll σ → Dll σ → Prop) : Prop extends
    AskFrame (fun _ => True) R, SessionFrame R where
  gCSimStartOverride : ∀ s n, R s { s with gCSimStartOverride := n }

section Entries

variable {R : Dll σ → Dll σ → Prop}

/-- The console steps stay in any frame that does not look at the console. -/
theorem SessionFrame.within_console {mode : Mode} (F : SessionFrame R) {x : DllM σ PUnit}
    (h : ∀ s, Ensures x s (fun _ t => ConsoleOnly s t) fun _ _ => False) : Within mode R x :=
  fun s live => (h s).mono (fun _ t only => ⟨by rw [only.L]; exact live, F.console s t only⟩)
    fun _ _ no => no.elim

/-- Opening the script and starting in it, as one part. -/
theorem opening_within (F : SessionFrame R) :
    Within .either R (openLuaScript E .session >>= fun opened =>
      if opened then startSession E else pure ()) :=
  openingSession_within E F.toOpeningFrame F.toOutputFrame.writing (fun _ _ => trivial)
    (fun _ _ => trivial) trivial

/-- The deferred start stays in every frame of an entry point. -/
theorem cSimStartFlaw_within (F : EntryFrame R) : Within .either R (cSimStartFlaw E) := by
  have F' := F.toFrame
  have O := F.toOutputFrame.writing
  exact .bind F' (.setError O 1) fun _ => .bind F' (.setPOutput O 0 plError) fun _ =>
    .bind F' (F.within_console consoleStart_outcome) fun _ =>
      .bind F' (queryMarkers_within E F.toNameFrame (fun _ _ => trivial) (by simp)) fun _ =>
        opening_within E F.toSessionFrame

/-- A step without the start stays in every frame of a session. -/
theorem runStep_within (F : SessionFrame R) : Within .either R (runStep E) := by
  have F' := F.toFrame
  have O := F.toOutputFrame.writing
  exact .bind F' (F.within_console consoleStep_outcome) fun _ => .bind F' (.get F') fun _ =>
    .ite (.setPOutput O 0 plError) (calculate_within E O (fun _ _ => trivial) (by simp))

/-- `CCalculateEx` is the start, if it is pending, and a step. -/
theorem cCalculateEx_within (F : EntryFrame R) : Within .either R (cCalculateEx E) := by
  have F' := F.toFrame
  refine .bind F' (.bind F' (.get F') fun _ => .ite (.bind F' (cSimStartFlaw_within E F) fun _ =>
    .modify (fun _ => rfl) fun s => F.gCSimStartOverride s 0) (.pure F' _)) fun _ => ?_
  exact runStep_within E F.toSessionFrame

theorem closeLuaScript_within (F : OpeningFrame (fun _ => True) R) :
    Within .either R (closeLuaScript (σ := σ)) :=
  fun s _ => (closeLuaScript_outcome F trivial s).mono (fun _ _ ⟨_, h⟩ => ⟨trivial, h⟩)
    fun _ _ h => h

/-- The end of a stop, which needs no script. -/
theorem closing_within (F : SessionFrame R) :
    Within .either R (closeLuaScript >>= fun _ => consoleStop (σ := σ)) :=
  .bind F.toFrame (closeLuaScript_within F.toOpeningFrame) fun _ => F.within_console fun s =>
    (consoleStop_outcome s).mono (fun _ _ ⟨only, _⟩ => only) fun _ _ no => no

/-- `CSimStop` is what it does in the script, and closing it. -/
theorem cSimStop_within (F : SessionFrame R) : Within .either R (cSimStop E) :=
  .bind F.toFrame
    (stopScript_within E F.toOutputFrame.writing (fun _ _ => trivial) (by simp)) fun _ =>
    closing_within F

/-- Whatever an exported function does, it stays in the frame. The queries need
less of it than the three functions of the simulation. -/
theorem Entry.within (F : EntryFrame R) (entry : Entry) : Within .either R (entry.perform E) := by
  have F' := F.toFrame
  by_cases query : entry.IsQuery
  · exact Entry.query_within E F.toAskFrame (fun _ _ => trivial) (by simp) query
  · cases entry with
    | cSimStart =>
        exact .bind F' (.modify (fun _ => rfl) fun s => F.gCSimStartOverride s 1) fun _ =>
          .pure F' _
    | cCalculateEx => exact .bind F' (cCalculateEx_within E F) fun _ => .pure F' _
    | cSimStop => exact .bind F' (cSimStop_within E F.toSessionFrame) fun _ => .pure F' _
    | _ => exact absurd trivial query

/-- A call writes to the host's arrays first and then performs its function. -/
theorem HostCall.within (F : EntryFrame R) (c : HostCall) : Within .either R (c.perform E) :=
  .bind F.toFrame (.modify (fun _ => rfl) fun s => F.host s (c.write s.host)) fun _ =>
    Entry.within E F c.entry

end Entries

/-! ### Starting, running and stopping -/

/-- The deferred start ends with the error flag set unless the script is open:
the flag is raised first, and lowered only in the open script. -/
theorem cSimStartFlaw_outcome {s : Dll σ} (closed : s.L = none) :
    Ensures (cSimStartFlaw E) s (fun _ t => t.gERROR = 0 → t.L.isSome)
      (fun e _ => e ≠ .nullState) := by
  have F : NameFrame (fun _ => True) (SameControl (σ := σ)) := SameControl.frame _
  have raise : Ensures (setError 1) s (fun _ t => t.L = none ∧ t.gERROR = 1)
      (fun e _ => e ≠ .nullState) := .of_ok (run_setError 1 s) ⟨closed, rfl⟩
  refine raise.bind fun _ t ⟨shut, raised⟩ => ?_
  have report : Ensures (setPOutput 0 plError) t (fun _ u => u.L = none ∧ u.gERROR = 1)
      (fun e _ => e ≠ .nullState) := .of_ok (run_setPOutput 0 plError t) ⟨shut, raised⟩
  refine report.bind fun _ u ⟨shut, raised⟩ => ?_
  refine (consoleStart_outcome u).bind fun _ v only => ?_
  have names : Within .closed SameControl (queryMarkers E) :=
    queryMarkers_within E F (fun _ _ => trivial) (by simp)
  refine (names.run (by simp) (only.L.trans shut)).bind fun _ w ⟨_, same⟩ => ?_
  refine (openLuaScript_run E F.toOpeningFrame (fun _ _ => trivial) .session trivial w).bind
    fun opened x ⟨live, second⟩ => ?_
  -- in the open script nothing closes it; otherwise the flag is still the one raised at the
  -- start
  refine .ite (fun yes => ?_) fun _ => ?_
  · have session : Within .opened SameFlags (startSession E) :=
      startSession_within E (SameFlags.outputFrame fun _ => True).writing (fun _ _ => trivial)
        (by simp)
    exact (session.run (by simp) (live.trans yes)).mono (fun _ _ ⟨still, _⟩ _ => still)
      fun _ _ h => h
  · refine .pure fun zero => ?_
    rw [second.gERROR, same.gERROR, only.gERROR, raised] at zero
    exact absurd zero (by decide)

/-- Fit for `CCalculateEx`: the start is pending, or the script is open unless
the error flag is set. -/
def Ready (s : Dll σ) : Prop :=
  (s.gCSimStartOverride ≠ 0 → s.L = none) ∧ (s.gCSimStartOverride = 0 → s.gERROR = 0 → s.L.isSome)

/-- The console does not change whether the script is running. -/
theorem Phase.Inv.console {s t : Dll σ} (inv : Phase.running.Inv s) (only : ConsoleOnly s t) :
    Phase.running.Inv t := by
  refine ⟨only.gCSimStartOverride.trans inv.1, fun zero => ?_⟩
  rw [only.L]
  exact inv.2 (only.gERROR.symm.trans zero)

/-- After the deferred start the simulation runs: the override is settled, and
without an error the state is open. -/
theorem startOverride_outcome {s : Dll σ} (ready : Ready s) :
    Ensures (startOverride E) s (fun _ => Phase.running.Inv) (fun e _ => e ≠ .nullState) := by
  unfold startOverride
  rw [ensures_bind, ensures_get]
  refine .ite (fun pending => ?_) fun done => ?_
  · exact (cSimStartFlaw_outcome E (ready.1 pending)).bind fun _ t live => .modify ⟨rfl, live⟩
  · have zero : s.gCSimStartOverride = 0 := by simpa using done
    exact .pure ⟨zero, ready.2 zero⟩

/-- In a simulation that is ready, `CCalculateEx` never uses NULL. -/
theorem cCalculateEx_outcome {s : Dll σ} (ready : Ready s) :
    Ensures (cCalculateEx E) s (fun _ => Phase.running.Inv) (fun e _ => e ≠ .nullState) := by
  refine (startOverride_outcome E ready).bind fun _ t inv => ?_
  refine (consoleStep_outcome t).bind fun _ u only => ?_
  replace inv : Phase.running.Inv u := inv.console only
  rw [ensures_bind, ensures_get]
  -- only a step without an error uses the state, and then the state is open
  refine .ite (fun _ => ?_) fun fine => ?_
  · exact .of_ok (run_setPOutput 0 plError u) inv
  · have zero : u.gERROR = 0 := by simpa using fine
    have step : Within .opened SameFlags (calculate E) :=
      calculate_within E (SameFlags.outputFrame fun _ => True).writing (fun _ _ => trivial)
        (by simp)
    refine (step.run (by simp) (inv.2 zero)).mono (fun _ v ⟨live, same⟩ => ⟨?_, fun _ => live⟩)
      fun _ _ h => h
    rw [same.gCSimStartOverride]
    exact inv.1

/-- `CSimStop` needs the script only when no error is set. It closes the state
in any case. -/
theorem cSimStop_outcome {s : Dll σ} (live : s.gERROR = 0 → s.L.isSome) :
    Ensures (cSimStop E) s (fun _ t => t.L = none) (fun e _ => e ≠ .nullState) := by
  have stopping : Ensures (stopScript E) s (fun _ _ => True) (fun e _ => e ≠ .nullState) := by
    unfold stopScript
    rw [ensures_bind, ensures_get]
    refine .ite (fun fine => ?_) fun _ => .pure trivial
    have stop : Within .opened SameFlags (do callStop E; restorePUser E) :=
      have F := (SameFlags.outputFrame fun _ => True).writing
      .bind F.toFrame (callStop_within E F (fun _ _ => trivial) (by simp)) fun _ =>
        restorePUser_within E F (fun _ _ => trivial) (by simp)
    exact (stop.run (by simp) (live fine)).mono (fun _ _ _ => trivial) fun _ _ h => h
  refine stopping.bind fun _ t _ => ?_
  refine (closeLuaScript_outcome (SameControl.frame fun _ => True).toOpeningFrame trivial t).bind
    fun _ u ⟨closed, _⟩ => ?_
  exact (consoleStop_outcome u).mono (fun _ _ ⟨only, _⟩ => only.L.trans closed) fun _ _ h => h

/-- Stopping a simulation that has no Lua state and no error is the one use of
a NULL state. -/
theorem cSimStop_null {s : Dll σ} (closed : s.L = none) (fine : s.gERROR = 0) :
    cSimStop E s = .error .nullState s := by
  have lookup : callHook E .gSimStop stringDummy 0 s = .error .nullState s := by
    unfold callHook
    rw [run_bind, onL_null closed]
  have stopping : stopScript E s = .error .nullState s := by
    unfold stopScript callStop
    rw [run_bind_ok (run_get s), if_pos fine, run_bind, run_bind, lookup]
  unfold cSimStop
  rw [run_bind, stopping]

/-! ### Runs of the protocol -/

/-- In the idle phase the host may make any query, and only queries keep it
there. The other call it may make is `CSimStart`. -/
theorem Phase.next_idle {c : HostCall} {phase : Phase} (move : Phase.idle.next c = some phase) :
    (c.entry.IsQuery ∧ phase = .idle) ∨ (c.entry = .cSimStart ∧ phase = .started) := by
  obtain ⟨write, entry⟩ := c
  cases entry <;> simp_all [Phase.next, Entry.IsQuery]

/-- In a simulation there are two calls: a step and the stop. -/
theorem Phase.next_busy {c : HostCall} {before after : Phase} (busy : before ≠ .idle)
    (move : before.next c = some after) :
    (c.entry = .cCalculateEx ∧ after = .running) ∨ (c.entry = .cSimStop ∧ after = .idle) := by
  obtain ⟨write, entry⟩ := c
  cases before <;> cases entry <;> simp_all [Phase.next]

/-- A stop that finds the start still pending must find the error flag set. -/
def StopsSafely (s : Dll σ) (c : HostCall) : Prop :=
  c.entry = .cSimStop → s.gERROR ≠ 0 ∨ s.gCSimStartOverride = 0

/-- What holds of the exported function with the host's new arrays holds of the
call. -/
theorem HostCall.ensures {c : HostCall} {s : Dll σ} {Q : Returned → Dll σ → Prop}
    {A : Stop → Dll σ → Prop}
    (h : Ensures (c.entry.perform E) { s with host := c.write s.host } Q A) :
    Ensures (c.perform E) s Q A := by
  unfold HostCall.perform
  rw [ensures_bind, ensures_modify]
  exact h

/-- What the host writes to its arrays does not change the phase. -/
theorem Phase.Inv.host {phase : Phase} {s : Dll σ} (inv : phase.Inv s) (h : Host) :
    phase.Inv { s with host := h } := by
  cases phase with
  | idle => exact inv
  | started => exact inv
  | running => exact inv

/-- A simulation is ready for its next step in every phase but the idle one. -/
theorem Phase.Inv.ready {phase : Phase} (busy : phase ≠ .idle) {s : Dll σ} (inv : phase.Inv s) :
    Ready s := by
  cases phase with
  | idle => exact absurd rfl busy
  | started => exact ⟨fun _ => inv.1, fun done => absurd done inv.2⟩
  | running => exact ⟨fun pending => absurd inv.1 pending, fun _ => inv.2⟩

/-- One call of the protocol: it keeps the invariant and meets no NULL state,
unless it is a stop too early. -/
theorem HostCall.perform_safe {before after : Phase} {c : HostCall} {s : Dll σ}
    (move : before.next c = some after) (inv : before.Inv s) (safe : StopsSafely s c) :
    Ensures (c.perform E) s (fun _ t => after.Inv t) (fun e _ => ¬e = .nullState) := by
  refine HostCall.ensures E ?_
  have inv' := inv.host (c.write s.host)
  by_cases idle : before = .idle
  · subst idle
    rcases Phase.next_idle move with ⟨query, rfl⟩ | ⟨start, rfl⟩
    · have asked : Within .closed SameSession (c.entry.perform E) :=
        Entry.query_within E SameSession.askFrame (fun _ h => h) (by simp) query
      exact (asked.run (by simp) inv').mono (fun _ _ ⟨closed, _⟩ => closed) fun _ _ h => h
    · rw [start, Entry.perform_cSimStart]
      exact .bind (.modify ⟨inv', by simp⟩) fun _ _ h => .pure h
  · rcases Phase.next_busy idle move with ⟨run, rfl⟩ | ⟨stop, rfl⟩
    · rw [run, Entry.perform_cCalculateEx]
      exact (cCalculateEx_outcome E (inv'.ready idle)).bind fun _ _ h => .pure h
    · rw [stop, Entry.perform_cSimStop]
      have live : s.gERROR = 0 → s.L.isSome := fun zero =>
        (inv.ready idle).2 ((safe stop).resolve_left fun error => error zero) zero
      exact (cSimStop_outcome E (s := { s with host := c.write s.host }) live).bind
        fun _ _ h => .pure h

/-- A stop too early does use the NULL state: the start is still pending, so
there is none, and no error keeps `CSimStop` from looking `gSimStop` up. -/
theorem HostCall.perform_fails {before after : Phase} {c : HostCall} {s : Dll σ}
    (move : before.next c = some after) (inv : before.Inv s) (early : ¬StopsSafely s c) :
    ∃ e t, c.perform E s = .error e t ∧ e = .nullState := by
  simp only [StopsSafely, Classical.not_imp, not_or, not_not] at early
  obtain ⟨stop, fine, pending⟩ := early
  have busy : before ≠ .idle := by
    rintro rfl
    rcases Phase.next_idle move with ⟨query, _⟩ | ⟨start, _⟩
    · rw [stop] at query
      exact query
    · rw [stop] at start
      cases start
  have stopped := cSimStop_null E (s := { s with host := c.write s.host })
    ((inv.ready busy).1 pending) fine
  refine ⟨.nullState, { s with host := c.write s.host }, ?_, rfl⟩
  unfold HostCall.perform
  rw [run_bind_ok (run_modify _ _), stop, Entry.perform_cSimStop, run_bind, stopped]

/-- One call of the protocol, if it returns. -/
theorem HostCall.perform_inv {before after : Phase} {c : HostCall} {s : Dll σ}
    (move : before.next c = some after) (inv : before.Inv s) :
    Ensures (c.perform E) s (fun _ t => after.Inv t) (fun _ _ => True) := by
  by_cases safe : StopsSafely s c
  · exact (HostCall.perform_safe E move inv safe).mono (fun _ _ h => h) fun _ _ _ => trivial
  · obtain ⟨e, t, stopped, _⟩ := HostCall.perform_fails E move inv safe
    exact .of_error stopped trivial

/-- A state the DLL can be in when the host is in this phase. -/
def Reached (phase : Phase) (s : Dll σ) : Prop :=
  ∃ host calls rs, follow Phase.next .idle calls = some phase ∧
    runCalls E calls (Dll.init host) = .ok rs s

/-- What the globals say in a phase, in every state that a host can reach in it.
-/
theorem Reached.inv {phase : Phase} {s : Dll σ} (reached : Reached E phase s) : phase.Inv s := by
  obtain ⟨host, calls, rs, protocol, run⟩ := reached
  have start : Phase.idle.Inv (Dll.init (σ := σ) host) := rfl
  exact (Ensures.runAll (fun _ _ _ _ move inv => HostCall.perform_inv E move inv) protocol
    start).ok run

/-- A host that keeps to the protocol makes the DLL use a NULL state exactly
when it stops a simulation before the first `CCalculateEx` with no error set. -/
theorem runCalls_avoids_null_iff (host : Host) (calls : List HostCall) (last : Phase)
    (protocol : follow Phase.next .idle calls = some last) :
    (∀ e t, runCalls E calls (Dll.init host) = .error e t → ¬e = .nullState) ↔
      Along (HostCall.perform E) StopsSafely calls (Dll.init host) :=
  runAll_avoids_iff (fun _ _ _ _ move inv safe => HostCall.perform_safe E move inv safe)
    (fun _ _ _ _ move inv notSafe => HostCall.perform_fails E move inv notSafe) protocol
    (rfl : Phase.idle.Inv (Dll.init (σ := σ) host))

/-- A script with one input, one output and every function of the simulation. -/
def sampleScript : Env Unit :=
  sampleEnv [("gNumInputs", .number (.ofNat 1)), ("gNumOutputs", .number (.ofNat 1)),
    ("gSimStart", .function 1), ("gCalculate", .function 2), ("gSimStop", .function 3)]
    fun _ args h => (args, h)

def wholeSession : List HostCall :=
  quietCalls [.cNumInputsEx, .cNumOutputsEx, .cSimStart, .cCalculateEx, .cCalculateEx, .cSimStop]

def emptySession : List HostCall :=
  quietCalls [.cNumInputsEx, .cNumOutputsEx, .cSimStart, .cSimStop]

/-- A session of the sample script, run before it is stopped. -/
theorem runCalls_avoids_null_iff_wholeSession :
    (∀ e t, runCalls sampleScript wholeSession (Dll.init sampleHost) = .error e t →
        ¬e = .nullState) ↔
      Along (HostCall.perform sampleScript) StopsSafely wholeSession (Dll.init sampleHost) :=
  runCalls_avoids_null_iff sampleScript sampleHost wholeSession .idle (by decide)

/-- A start followed by a stop, with one input and one output, uses a NULL
state. -/
theorem emptySession_uses_null :
    follow Phase.next .idle emptySession = some .idle ∧
      Ensures (runCalls sampleScript emptySession) (Dll.init sampleHost) (fun _ _ => False)
        (fun e t => e = .nullState ∧ t.gNumInputs = 2 ∧ t.gNumOutputs = 2) := by
  decide +kernel

end ProfiLua
