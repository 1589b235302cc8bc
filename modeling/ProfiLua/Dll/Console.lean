import ProfiLua.Dll.Session

/-!
The debug console over whole runs.

Two places open the console, the pending start and the step, and both run in the
first `CCalculateEx`; one place closes it, the end of `CSimStop`, on the error
path as well. `Event.turn` is the console as its two calls see it: on only while
it is closed, off only while it is open. No run ever leaves it
(`console_alternates`), and a value kept beside the run says when it is open.
-/

namespace ProfiLua

open Program

variable {σ : Type} (E : Env σ)

/-! ### The console, turn by turn -/

/-- What an event makes of the console, if it is its turn. -/
def Event.turn : Bool → Event → Option Bool
  | false, .consoleOn => some true
  | true, .consoleOn => none
  | false, .consoleOff => none
  | true, .consoleOff => some false
  | isOpen, _ => some isOpen

/-- The console after all that is on record, if every call had its turn. -/
def Dll.turns (s : Dll σ) : Option Bool := follow Event.turn false (s.trace.map Prod.snd)

/-- Every call had its turn, and the window and the flag are where they should be. -/
structure Turned (s : Dll σ) : Prop where
  turns : s.turns = some s.console
  gConsole : s.gConsole = if s.console then 1 else 0

/-- Any event but the two of the console leaves the window as it is. -/
theorem Event.turn_quiet {e : Event} (quiet : ¬e.OfConsole) (isOpen : Bool) :
    Event.turn isOpen e = some isOpen := by
  cases e with
  | consoleOn => exact absurd trivial quiet
  | consoleOff => exact absurd trivial quiet
  | _ => cases isOpen <;> rfl

/-- A stretch of the record without console events does, too. -/
theorem follow_turn_quiet {events : List Event} (quiet : ∀ e ∈ events, ¬e.OfConsole)
    (isOpen : Bool) : follow Event.turn isOpen events = some isOpen := by
  induction events with
  | nil => rfl
  | cons e rest ih =>
      unfold follow
      rw [Event.turn_quiet (quiet e List.mem_cons_self)]
      exact ih fun e' mem => quiet e' (List.mem_cons_of_mem e mem)

theorem Dll.turns_note {s : Dll σ} {isOpen : Bool} (turns : s.turns = some isOpen) (e : Event) :
    (s.note [e]).turns = Event.turn isOpen e := by
  unfold Dll.turns Dll.note at *
  rw [List.map_append]
  cases next : Event.turn isOpen e with
  | some after =>
      refine follow_append.mpr ⟨isOpen, turns, ?_⟩
      simp [follow, next]
  | none =>
      by_contra some
      obtain ⟨after, reached⟩ := Option.ne_none_iff_exists'.mp some
      obtain ⟨middle, first, second⟩ := follow_append.mp reached
      obtain rfl : isOpen = middle := Option.some.inj (turns.symm.trans first)
      simp [follow, next] at second

/-! ### What leaves the console alone -/

/-- The console, the inputs and a pending start stay as they are. -/
structure KeepsConsole (s t : Dll σ) : Prop where
  gConsole : t.gConsole = s.gConsole
  console : t.console = s.console
  gCSimStartOverride : t.gCSimStartOverride = s.gCSimStartOverride
  pInput : t.host.pInput = s.host.pInput
  trace : Grows (fun e => ¬e.OfConsole) s t

theorem KeepsConsole.trans {s t u : Dll σ} (h : KeepsConsole s t) (k : KeepsConsole t u) :
    KeepsConsole s u :=
  ⟨k.gConsole.trans h.gConsole, k.console.trans h.console,
    k.gCSimStartOverride.trans h.gCSimStartOverride, k.pInput.trans h.pInput, h.trace.trans k.trace⟩

/-- The console is outside of everything the DLL does with its script. -/
theorem KeepsConsole.frame : Frame (fun e => ¬e.OfConsole) (KeepsConsole (σ := σ)) where
  refl := fun s => ⟨rfl, rfl, rfl, rfl, .refl _ s⟩
  trans := fun _ _ _ => KeepsConsole.trans
  setL := fun _ _ => ⟨rfl, rfl, rfl, rfl, .of_same rfl rfl⟩
  balanced := fun _ _ => ⟨rfl, rfl, rfl, rfl, .of_same rfl rfl⟩
  note := fun s _ allowed => ⟨rfl, rfl, rfl, rfl, .of_note s allowed⟩

theorem KeepsConsole.writingFrame :
    WritingFrame (fun e => ¬e.OfConsole) (KeepsConsole (σ := σ)) where
  toFrame := KeepsConsole.frame
  gERROR := fun _ _ => ⟨rfl, rfl, rfl, rfl, .of_same rfl rfl⟩
  written := fun _ _ same => ⟨rfl, rfl, rfl, same, .of_same rfl rfl⟩

theorem KeepsConsole.askFrame : AskFrame (fun e => ¬e.OfConsole) (KeepsConsole (σ := σ)) where
  toFrame := KeepsConsole.frame
  epoch := fun s => ⟨rfl, rfl, rfl, rfl, .of_epoch _ s⟩
  markers := fun _ _ _ => ⟨rfl, rfl, rfl, rfl, .of_same rfl rfl⟩
  gFileNum := fun _ _ => ⟨rfl, rfl, rfl, rfl, .of_same rfl rfl⟩
  counts := fun _ _ _ => ⟨rfl, rfl, rfl, rfl, .of_same rfl rfl⟩
  raised := fun _ => ⟨rfl, rfl, rfl, rfl, .of_same rfl rfl⟩

/-- No query touches the window. -/
theorem Event.OfQuery.noConsole (e : Event) (query : e.OfQuery) : ¬e.OfConsole := by
  cases e with
  | consoleOn => exact absurd query id
  | consoleOff => exact absurd query id
  | _ => exact id

theorem Event.OfScript.noConsole (e : Event) (script : e.OfScript) : ¬e.OfConsole := by
  cases e with
  | consoleOn => exact absurd script id
  | consoleOff => exact absurd script id
  | _ => exact id

section Parts

variable {E} {s t : Dll σ}

/-- What keeps the console keeps the agreement of flag, window and record: it
notes events, but none of them turns the console. -/
theorem KeepsConsole.turned (keeps : KeepsConsole s t) (turned : Turned s) : Turned t where
  turns := by
    obtain ⟨_, gained, grown, allowed⟩ := keeps.trace
    unfold Dll.turns
    rw [grown, List.map_append, keeps.console]
    refine follow_append.mpr ⟨s.console, turned.turns, follow_turn_quiet ?_ _⟩
    intro e mem
    obtain ⟨pair, inside, rfl⟩ := List.mem_map.mp mem
    exact (allowed pair inside).1
  gConsole := by
    rw [keeps.gConsole, keeps.console]
    exact turned.gConsole

/-- A part that leaves the console alone, with every call having its turn. -/
theorem Within.turned {α : Type} {x : DllM σ α} (h : Within .either KeepsConsole x)
    (turned : Turned s) :
    Ensures x s (fun _ t => KeepsConsole s t ∧ Turned t) (fun _ t => Turned t) :=
  (h s trivial).mono (fun _ _ ⟨_, keeps⟩ => ⟨keeps, keeps.turned turned⟩)
    fun _ _ ⟨_, keeps⟩ => keeps.turned turned

/-! ### The three places that touch it -/

/-- Opening the console while it is closed. -/
theorem Turned.on (turned : Turned s) (closed : s.console = false) :
    Turned { debugConsoleOn s with gConsole := 1, gConsoleTop := 0 } where
  turns := by
    have turns := turned.turns
    rw [closed] at turns
    exact Dll.turns_note turns .consoleOn
  gConsole := rfl

/-- Closing an open window is recorded as such. -/
theorem Turned.off (turned : Turned s) (isOpen : s.console = true) :
    Turned { debugConsoleOff s with gConsole := 0, gConsoleTop := 0 } where
  turns := by
    have turns := turned.turns
    rw [isOpen] at turns
    exact Dll.turns_note turns .consoleOff
  gConsole := rfl

theorem Turned.closed_iff (turned : Turned s) : s.gConsole = 0 ↔ s.console = false := by
  rw [turned.gConsole]
  cases s.console <;> simp

theorem Turned.open_iff (turned : Turned s) : s.gConsole = 1 ↔ s.console = true := by
  rw [turned.gConsole]
  cases s.console <;> simp

variable {A : Stop → Dll σ → Prop}

/-- With the window closed, the start opens it exactly when the pin is high. -/
theorem consoleStart_turned (turned : Turned s) (closed : s.console = false) :
    Ensures consoleStart s (fun _ t => Turned t ∧ t.console = s.host.consoleHigh ∧
      t.host = s.host) A := by
  refine .modify ?_
  cases high : s.host.consoleHigh with
  | true => exact ⟨turned.on closed, rfl, rfl⟩
  | false => exact ⟨turned, closed, rfl⟩

/-- A step leaves the window open if it was, or if the pin is high. The flag
says whether it is open, so it is opened once. -/
theorem consoleStep_turned (turned : Turned s) :
    Ensures consoleStep s (fun _ t => Turned t ∧ t.console = (s.console || s.host.consoleHigh) ∧
      t.gCSimStartOverride = s.gCSimStartOverride) A := by
  have on : Ensures (modify fun s : Dll σ =>
      if s.host.consoleHigh ∧ s.gConsole = 0 then
        { debugConsoleOn s with gConsole := 1, gConsoleTop := 0 }
      else s) s (fun _ t => Turned t ∧ t.console = (s.console || s.host.consoleHigh) ∧
        t.gCSimStartOverride = s.gCSimStartOverride) A := by
    refine .modify ?_
    split
    · rename_i both
      refine ⟨turned.on (turned.closed_iff.mp both.2), ?_, rfl⟩
      rw [both.1, Bool.or_true]
      rfl
    · rename_i either
      refine ⟨turned, ?_, rfl⟩
      cases shown : s.console with
      | true => rfl
      | false =>
          have low := fun high => either ⟨high, turned.closed_iff.mpr shown⟩
          simpa using low
  refine on.bind fun _ t ⟨turned', shown, pending⟩ => .modify ?_
  split
  · exact ⟨⟨turned'.turns, turned'.gConsole⟩, shown, pending⟩
  · exact ⟨turned', shown, pending⟩

/-- After the stop the window is closed, whether or not it was open. -/
theorem consoleStop_turned (turned : Turned s) :
    Ensures consoleStop s (fun _ t => Turned t ∧ t.console = false) A := by
  refine .modify ?_
  split
  · rename_i shown
    exact ⟨turned.off (turned.open_iff.mp shown), rfl⟩
  · rename_i off
    exact ⟨turned, Bool.eq_false_iff.mpr fun shown => off (turned.open_iff.mpr shown)⟩

/-! ### The exported functions -/

variable (E) in
/-- The start turns the console once, before anything that can stop it: so also
a start that the script stops leaves flag, window and record in agreement. -/
theorem cSimStartFlaw_turned (turned : Turned s) (closed : s.console = false) :
    Ensures (cSimStartFlaw E) s
      (fun _ t => Turned t ∧ t.console = s.host.consoleHigh ∧ t.host.pInput = s.host.pInput)
      (fun _ t => Turned t) := by
  have W := KeepsConsole.writingFrame (σ := σ)
  have report : Within .either KeepsConsole
      (setError (σ := σ) 1 >>= fun _ => setPOutput 0 plError) :=
    .bind W.toFrame (.setError W 1) fun _ => .setPOutput W 0 plError
  have queries : Within .either KeepsConsole (queryMarkers E) :=
    queryMarkers_within E KeepsConsole.askFrame.toNameFrame Event.OfQuery.noConsole (by simp)
  have opening := openingSession_within E KeepsConsole.askFrame.toOpeningFrame W
    Event.OfQuery.noConsole Event.OfScript.noConsole (fun no => no)
  have rest := Within.bind W.toFrame queries fun _ => opening
  have same : cSimStartFlaw E = (setError 1 >>= fun _ => setPOutput 0 plError) >>= fun _ =>
      consoleStart >>= fun _ => queryMarkers E >>= fun _ =>
        openLuaScript E .session >>= fun opened =>
          if opened then startSession E else pure () := by
    unfold cSimStartFlaw
    rw [bind_assoc]
  rw [same]
  refine (report.turned turned).bind fun _ t ⟨first, turned'⟩ => ?_
  refine (consoleStart_turned turned' (first.console.trans closed)).bind
    fun _ u ⟨turned₂, shown, host⟩ => ?_
  refine (rest.turned turned₂).mono (fun _ v ⟨last, turned₃⟩ => ⟨turned₃, ?_, ?_⟩) fun _ _ h => h
  · rw [last.console, shown]
    unfold Host.consoleHigh
    rw [first.pInput]
  · rw [last.pInput, host, first.pInput]

variable (E) in
/-- So does a step: what comes after the console does not touch it, whether it
reports an error or calls the script. -/
theorem runStep_turned (turned : Turned s) :
    Ensures (runStep E) s
      (fun _ t => Turned t ∧ t.console = (s.console || s.host.consoleHigh) ∧
        t.gCSimStartOverride = s.gCSimStartOverride)
      (fun _ t => Turned t) := by
  have W := KeepsConsole.writingFrame (σ := σ)
  have rest : Within .either KeepsConsole (get >>= fun t : Dll σ =>
      if t.gERROR ≠ 0 then setPOutput 0 plError else calculate E) :=
    .bind W.toFrame (.get W.toFrame) fun _ => .ite (.setPOutput W 0 plError)
      (calculate_within E W Event.OfScript.noConsole (by simp))
  refine (consoleStep_turned turned).bind fun _ t ⟨turned', shown, pending⟩ => ?_
  refine (rest.turned turned').mono (fun _ u ⟨last, turned₂⟩ => ⟨turned₂, ?_, ?_⟩) fun _ _ h => h
  · rw [last.console, shown]
  · rw [last.gCSimStartOverride, pending]

variable (E) in
/-- And the stop turns it last, after the script has been closed. -/
theorem cSimStop_turned (turned : Turned s) :
    Ensures (cSimStop E) s (fun _ t => Turned t ∧ t.console = false) (fun _ t => Turned t) := by
  have stop : Within .either KeepsConsole (stopScript E) :=
    stopScript_within E KeepsConsole.writingFrame Event.OfScript.noConsole (by simp)
  refine (stop.turned turned).bind fun _ t ⟨_, turned'⟩ => ?_
  refine (closeLuaScript_outcome KeepsConsole.askFrame.toOpeningFrame (fun no => no) t).bind
    fun _ u ⟨_, keeps⟩ => ?_
  exact consoleStop_turned (keeps.turned turned')

/-! ### Runs -/

/-- Sessions that are each run before they are stopped, with queries anywhere. -/
def Phase.played : Phase → HostCall → Option Phase
  | .idle, ⟨_, .cSimStart⟩ => some .started
  | .started, ⟨_, .cCalculateEx⟩ => some .running
  | .running, ⟨_, .cCalculateEx⟩ => some .running
  | .running, ⟨_, .cSimStop⟩ => some .idle
  | _, ⟨_, .cSimStart⟩ => none
  | _, ⟨_, .cCalculateEx⟩ => none
  | _, ⟨_, .cSimStop⟩ => none
  | phase, _ => some phase

/-- Whether some `CCalculateEx` since the last `CSimStart` had `PInput[0]` high: kept
beside a run. -/
def wanted (before : Bool) (s : Dll σ) (c : HostCall) : Bool :=
  match c.entry with
  | .cSimStart => false
  | .cCalculateEx => before || (c.write s.host).consoleHigh
  | _ => before

/-- What is known of the console in each phase. -/
def Phase.ConsoleIs : Phase → Bool → Dll σ → Prop
  | .idle, _, s => s.console = false
  | .started, seen, s => seen = false ∧ s.console = false ∧ s.gCSimStartOverride ≠ 0
  | .running, seen, s => s.console = seen ∧ s.gCSimStartOverride = 0

/-- What is known of the console in a phase survives everything that keeps the
console. -/
theorem Phase.ConsoleIs.keeps {phase : Phase} {seen : Bool} (known : phase.ConsoleIs seen s)
    (keeps : KeepsConsole s t) : phase.ConsoleIs seen t := by
  cases phase with
  | idle => exact keeps.console.trans known
  | started =>
      obtain ⟨fresh, closed, pending⟩ := known
      exact ⟨fresh, keeps.console.trans closed, keeps.gCSimStartOverride ▸ pending⟩
  | running =>
      obtain ⟨shown, settled⟩ := known
      exact ⟨keeps.console.trans shown, keeps.gCSimStartOverride.trans settled⟩

variable (E) in
/-- The first step of a session makes the start as well. Both look at the same
`PInput[0]`, so the console is open afterwards exactly when it is high. -/
theorem firstStep_turned (turned : Turned s) (closed : s.console = false)
    (pending : s.gCSimStartOverride ≠ 0) :
    Ensures (cCalculateEx E) s
      (fun _ t => Turned t ∧ t.console = s.host.consoleHigh ∧ t.gCSimStartOverride = 0)
      (fun _ t => Turned t) := by
  have start : Ensures (startOverride E) s
      (fun _ t => Turned t ∧ t.console = s.host.consoleHigh ∧ t.host.pInput = s.host.pInput ∧
        t.gCSimStartOverride = 0) (fun _ t => Turned t) := by
    refine .step (run_get s) (.ite (fun _ => ?_) fun no => absurd pending no)
    refine (cSimStartFlaw_turned E turned closed).bind fun _ t ⟨turned', shown, inputs⟩ => ?_
    exact .modify ⟨⟨turned'.turns, turned'.gConsole⟩, shown, inputs, rfl⟩
  refine start.bind fun _ t ⟨turned', shown, inputs, settled⟩ => ?_
  refine (runStep_turned E turned').mono (fun _ u ⟨turned₂, shown', settled'⟩ => ?_) fun _ _ h => h
  refine ⟨turned₂, ?_, settled'.trans settled⟩
  rw [shown', shown]
  unfold Host.consoleHigh
  rw [inputs, Bool.or_self]

variable (E) in
theorem nextStep_turned (turned : Turned s) (settled : s.gCSimStartOverride = 0) :
    Ensures (cCalculateEx E) s
      (fun _ t => Turned t ∧ t.console = (s.console || s.host.consoleHigh) ∧
        t.gCSimStartOverride = 0)
      (fun _ t => Turned t) := by
  have noStart : startOverride E s = .ok ⟨⟩ s :=
    ok_bind (run_get s) (ok_ite_false (by simpa using settled) rfl)
  refine .step noStart ((runStep_turned E turned).mono (fun _ t ⟨turned', shown, same⟩ => ?_)
    fun _ _ h => h)
  exact ⟨turned', shown, same.trans settled⟩

variable (E) in
/-- One call the protocol allows. What is known of the console in the phase
before and what the pin was decide what is known in the phase after; the queries
know nothing of it. -/
theorem HostCall.turned {before after : Phase} {c : HostCall} {seen : Bool}
    (move : before.played c = some after) (turned : Turned s) (known : before.ConsoleIs seen s) :
    Ensures (c.perform E) s
      (fun _ t => Turned t ∧ after.ConsoleIs (wanted seen s c) t) (fun _ t => Turned t) := by
  refine HostCall.ensures E ?_
  obtain ⟨write, entry⟩ := c
  have turned' : Turned { s with host := write s.host } := ⟨turned.turns, turned.gConsole⟩
  have known' : before.ConsoleIs seen { s with host := write s.host } := by
    cases before with
    | idle => exact known
    | started => exact known
    | running => exact known
  by_cases query : entry.IsQuery
  · have same : wanted seen s ⟨write, entry⟩ = seen := by
      cases entry with
      | cSimStart => exact query.elim
      | cCalculateEx => exact query.elim
      | _ => rfl
    obtain rfl : before = after := by
      cases entry with
      | cSimStart => exact query.elim
      | cCalculateEx => exact query.elim
      | cSimStop => exact query.elim
      | _ => cases before <;> exact Option.some.inj move
    have asked : Within .either KeepsConsole (entry.perform E) :=
      Entry.query_within E KeepsConsole.askFrame Event.OfQuery.noConsole (by simp) query
    rw [same]
    exact (asked.turned turned').mono (fun _ t ⟨keeps, kept⟩ => ⟨kept, known'.keeps keeps⟩)
      fun _ _ h => h
  · cases entry with
    | cSimStart =>
        cases before with
        | idle =>
            cases move
            rw [Entry.perform_cSimStart]
            refine .bind (.modify ?_) fun _ _ h => .pure h
            exact ⟨⟨turned.turns, turned.gConsole⟩, rfl, known, by simp⟩
        | started => cases move
        | running => cases move
    | cCalculateEx =>
        rw [Entry.perform_cCalculateEx]
        cases before with
        | idle => cases move
        | started =>
            cases move
            obtain ⟨fresh, closed, pending⟩ := known'
            refine (firstStep_turned E turned' closed pending).bind
              fun _ t ⟨kept, shown, settled⟩ =>
              .pure ⟨kept, ?_, settled⟩
            simp only [wanted, fresh, Bool.false_or]
            exact shown
        | running =>
            cases move
            obtain ⟨shown, settled⟩ := known'
            refine (nextStep_turned E turned' settled).bind fun _ t ⟨kept, shown', settled'⟩ =>
              .pure ⟨kept, ?_, settled'⟩
            simp only [wanted, ← shown]
            exact shown'
    | cSimStop =>
        rw [Entry.perform_cSimStop]
        cases before with
        | idle => cases move
        | started => cases move
        | running =>
            cases move
            exact (cSimStop_turned E turned').bind fun _ _ h => .pure h
    | _ => exact absurd trivial query

end Parts

/-- In every run of sessions `DebugConsoleOn` is called only while the console
is closed and `DebugConsoleOff` only while it is open, also up to a call that
does not return. After a step the console is open exactly when some step since
the last start had `PInput[0]` high, and after a stop it is closed. -/
theorem console_alternates (host : Host) {calls : List HostCall} {last : Phase}
    (protocol : follow Phase.played .idle calls = some last) :
    Ensures (runCalls E calls) (Dll.init host)
      (fun _ s => s.turns = some s.console ∧
        (last = .running → s.console =
          observe (HostCall.perform E) wanted false calls (Dll.init host)) ∧
        (last = .idle → s.console = false))
      (fun _ s => s.turns = some s.console) := by
  have request : ∀ phase (c : HostCall) phase' seen s, Phase.played phase c = some phase' →
      Turned s ∧ phase.ConsoleIs seen s → Ensures (c.perform E) s
        (fun _ t => Turned t ∧ phase'.ConsoleIs (wanted seen s c) t) (fun _ t => Turned t) :=
    fun _ _ _ _ _ move inv => HostCall.turned E move inv.1 inv.2
  let s₀ : Dll σ := Dll.init host
  have start : Turned s₀ ∧ Phase.idle.ConsoleIs false s₀ := ⟨⟨rfl, rfl⟩, rfl⟩
  have run := Ensures.runAll_observed request protocol start
  refine run.mono (fun _ s ⟨turned, known⟩ => ⟨turned.turns, ?_, ?_⟩) fun _ s turned => turned.turns
  · rintro rfl
    exact known.1
  · rintro rfl
    exact known

/-- A start, a step with all inputs low, and one with all of them high. -/
def highStep : List HostCall :=
  quietCalls [.cSimStart, .cCalculateEx] ++
    [⟨fun h => { h with pInput := fun _ => logicHigh }, .cCalculateEx⟩]

theorem console_alternates_highStep :
    ∃ rs s, runCalls { sampleScript with luaOpen := fun _ => none } highStep (Dll.init sampleHost) =
        .ok rs s ∧ s.turns = some s.console ∧ s.console = observe
          (HostCall.perform { sampleScript with luaOpen := fun _ => none }) wanted false highStep
          (Dll.init sampleHost) ∧ s.console = true := by
  have opened : Ensures (runCalls { sampleScript with luaOpen := fun _ => none } highStep)
      (Dll.init sampleHost) (fun _ s => s.console = true) (fun _ _ => False) := by decide +kernel
  obtain ⟨rs, s, run, shown⟩ := opened.returns
  obtain ⟨turns, seen, -⟩ := (console_alternates { sampleScript with luaOpen := fun _ => none }
    sampleHost (show follow Phase.played .idle highStep = some .running by decide)).ok run
  exact ⟨rs, s, run, turns, seen rfl, shown⟩

end ProfiLua
