import ProfiLua.Dll.Answers
import ProfiLua.Dll.Exchange

/-!
The error flag and the ERROR pin.

A start that returns says the same in `gERROR` and in `POutput[0]`, but once
`gSimStart` has answered it says that all is well (`start_reports_iff`). A step
that raises the flag leaves the pin to the next step, so the two agree through a
run as long as `gCalculate` gives tables (`pin_agrees`).
-/

namespace ProfiLua

open Program

variable {σ : Type} (E : Env σ)

/-! ### What a start reports -/

/-- The `count` outputs from `i` on can be read from the table as numbers; what a
string pin holds does not matter. -/
def UsableFrom (marked : Nat → Bool) (t : Nat) : Nat → Nat → Heap σ → Prop
  | 0, _, _ => True
  | count + 1, i, heap => ∃ v heap', entry E t (.number (.ofNat i)) heap = some (v, heap') ∧
      (marked i = true ∨ v.isnumber E.toCLib = true) ∧ UsableFrom marked t count (i + 1) heap'

/-- The answer on top of the stack is a table with a number for each output. -/
def Dll.UsableStart (s : Dll σ) : Prop :=
  ∃ t stack heap, s.L = some ⟨.table t :: stack, heap⟩ ∧
    UsableFrom E s.outputMarks t (s.gNumOutputs.toNat - 1) 1 heap

/-- The flag and the pin say whether the start went well. -/
def ReportsStart (well : Prop) (s : Dll σ) : Prop :=
  ((s.gERROR = 0 ∧ s.host.pOutput 0 = plOk) ↔ well) ∧
    (¬well → s.gERROR = 1 ∧ s.host.pOutput 0 = plError)

/-- A start that returns reports what became of it exactly when `gSimStart` did
not answer, or answered with a usable table: both the flag and the pin are set
to success after any answer, so an answer that is no table, or has a bad
element, goes unreported. -/
theorem start_reports_iff {s t : Dll σ} (returned : cSimStartFlaw E s = .ok ⟨⟩ t) :
    ∃ reach u, askStart E s = .ok reach u ∧
      (ReportsStart (reach.Answered ∧ u.UsableStart E) t ↔ (reach.Answered → u.UsableStart E)) := by
  rw [cSimStartFlaw_eq] at returned
  obtain ⟨reach, u, asked, finished⟩ := bind_ok_iff.mp returned
  obtain ⟨raised, pin⟩ := (askStart_outcome E s).ok asked
  obtain ⟨done, failed⟩ := (finishStart_outcome E reach u).ok finished
  refine ⟨reach, u, asked, ?_⟩
  by_cases answered : reach.Answered
  · constructor
    · intro reports _
      exact (reports.1.mp (done answered)).2
    · intro usable
      exact ⟨⟨fun _ => ⟨answered, usable answered⟩, fun _ => done answered⟩,
        fun no => absurd ⟨answered, usable answered⟩ no⟩
  · constructor
    · intro _ yes
      exact absurd yes answered
    · obtain ⟨flag, host⟩ := failed answered
      intro _
      refine ⟨⟨fun well => ?_, fun well => absurd well.1 answered⟩, fun _ => ?_⟩
      · rw [flag, raised] at well
        exact absurd well.1 (by decide)
      · exact ⟨flag.trans raised, by rw [host]; exact pin⟩

/-- A script whose `gSimStart` returns nothing. -/
def silentStart : Env Unit := sampleEnv [("gSimStart", .function 1)] fun _ _ h => ([], h)

/-- One input and one output, and no script open. -/
def oneOutput : Dll Unit := { Dll.init sampleHost with gNumInputs := 2, gNumOutputs := 2 }

theorem start_reports_iff_oneOutput :
    ∃ t reach u, cSimStartFlaw sampleScript oneOutput = .ok ⟨⟩ t ∧
      askStart sampleScript oneOutput = .ok reach u ∧
      (ReportsStart (reach.Answered ∧ u.UsableStart sampleScript) t ↔
        (reach.Answered → u.UsableStart sampleScript)) := by
  have sample : Ensures (cSimStartFlaw sampleScript) oneOutput (fun _ t => t.gERROR = 0)
      (fun _ _ => False) := by
    decide +kernel
  obtain ⟨_, t, returned, _⟩ := sample.returns
  obtain ⟨reach, u, asked, iff⟩ := start_reports_iff sampleScript returned
  exact ⟨t, reach, u, returned, asked, iff⟩

/-- `gSimStart` returns nil, and the start takes the error back: flag and pin
say that all is well, and the table that would make it so is not there. -/
theorem silentStart_unreported :
    ∃ t reach u, cSimStartFlaw silentStart oneOutput = .ok ⟨⟩ t ∧
      askStart silentStart oneOutput = .ok reach u ∧
      ¬ReportsStart (reach.Answered ∧ u.UsableStart silentStart) t := by
  have halves : Ensures (askStart silentStart) oneOutput
      (fun reach u => u.L.map LuaState.stack = some [.nil, .nil] ∧
        Ensures (finishStart silentStart reach) u
          (fun _ t => t.gERROR = 0 ∧ t.host.pOutput 0 = plOk) (fun _ _ => False))
      (fun _ _ => False) := by
    decide +kernel
  obtain ⟨reach, u, asked, top, finish⟩ := halves.returns
  obtain ⟨_, t, finished, well⟩ := finish.returns
  have returned : cSimStartFlaw silentStart oneOutput = .ok ⟨⟩ t := by
    rw [cSimStartFlaw_eq]
    exact ok_bind asked finished
  refine ⟨t, reach, u, returned, asked, fun reports => ?_⟩
  obtain ⟨_, r, stack, heap, live, _⟩ := reports.1.mp well
  rw [live] at top
  cases top

/-! ### Flag and pin in a step -/

/-- The pin shows an error exactly when the flag is set. -/
def PinAgrees (s : Dll σ) : Prop := s.host.pOutput 0 = plError ↔ s.gERROR ≠ 0

/-- The agreement depends on the flag and the pin alone. -/
theorem PinAgrees.of_same {s t : Dll σ} (agrees : PinAgrees s) (flag : t.gERROR = s.gERROR)
    (pin : t.host.pOutput 0 = s.host.pOutput 0) : PinAgrees t := by
  unfold PinAgrees
  rw [flag, pin]
  exact agrees

section Step

variable {s : Dll σ} {stack : List TValue} {heap : Heap σ} {bar : Int} {v : TValue}

/-- Rounds with elements that fit do not touch the pin; a channel without a
marker ends the loop. The channels begin at 1, and the pin is channel 0. -/
theorem readOutputs_keep {r hi : Nat} (plain : (heap.table r).metatable = false)
    (below : bar ≤ stack.length) (fits : ∀ i, 1 ≤ i → i < hi →
      Fits E.toCLib s.outputMarks (fun j => (heap.table r).node (.number (.ofNat j))) i) :
    Ensures (countUp 1 hi (readOutput E bar (.table r))) (s.withL ⟨.table r :: stack, heap⟩)
      (fun _ t => ∃ h, h.pOutput 0 = s.host.pOutput 0 ∧
        t = Dll.withL { s with host := h } ⟨.table r :: stack, heap⟩) (fun _ _ => True) := by
  by_cases le : 1 ≤ hi
  swap
  · rw [countUp_done (by omega)]
    exact .pure ⟨s.host, rfl, rfl⟩
  refine Ensures.countUp (fun _ t => ∃ h, h.pOutput 0 = s.host.pOutput 0 ∧
    t = Dll.withL { s with host := h } ⟨.table r :: stack, heap⟩) le ⟨s.host, rfl, rfl⟩
    fun i pos lt t ⟨h, pin, same⟩ => ?_
  subst same
  refine .step (run_fetchElement E (s := { s with host := h }) plain i) ?_
  by_cases inside : i < markerSize
  · have stores : StoresTop s (storeOutput E bar (storeString E bar) i) _ _ :=
      storeOutput_stores E inside (fits i pos lt)
    obtain ⟨v', stored⟩ := stores h (.table r :: stack) heap
    refine .step stored (.of_ok (run_popAbove (by simpa using below)) ⟨_, ?_, rfl⟩)
    rw [← pin]
    unfold Host.storeResult
    split
    · rfl
    · exact Function.update_of_ne (by omega) _ _
  · have outside : ∀ t : Dll σ, Ensures (outMarked i) t (fun _ _ => False) (fun _ _ => True) :=
      fun t => .ite (fun h => absurd h inside) fun _ => .throw trivial
    exact Ensures.bind (Q := fun _ _ => False) ((outside _).bind fun _ _ no => False.elim no)
      fun _ _ no => False.elim no

/-- A result that fits leaves the flag and the pin alone, whatever the counts are. -/
theorem readResult_keeps (below : bar ≤ stack.length - 1)
    (fits : (replyOf heap v).Fits E.toCLib s.gNumOutputs.toNat s.outputMarks) :
    Ensures (readResult E bar) (s.withL ⟨v :: stack, heap⟩)
      (fun _ t => t.gERROR = s.gERROR ∧ t.host.pOutput 0 = s.host.pOutput 0) (fun _ _ => True) := by
  obtain ⟨r, rfl, plain, fits⟩ := fits_table fits
  refine .step (run_emitReply _) (.step (run_onL (run_luaHasType .table)) (.ite (fun _ => ?_) ?_))
  · refine .step (run_onL run_valueAt_top) (.step (run_get _) ?_)
    refine (readOutputs_keep E (s := s.replied (.result .gCalculate) (replyOf heap (.table r)))
      plain (by omega) fits).bind fun _ t ⟨h, pin, same⟩ => ?_
    subst same
    exact .of_ok (run_popAbove below) ⟨rfl, pin⟩
  · exact fun no => absurd (decide_eq_true rfl) no

/-- What a step that is not skipped does to the flag and the pin, if its result
fits: neither changes. With a missing function or a table that does not fit the
record shows it, and nothing is claimed. -/
theorem calculate_agrees (agrees : PinAgrees s) (live : s.L = some ⟨stack, heap⟩) :
    EnsuresIf (Dll.Meets (ResultFits E.toCLib)) (calculate E) s (fun _ t => PinAgrees t)
      (fun _ _ => True) := by
  rw [← Dll.withL_self live]
  refine .step (run_height (l := ⟨stack, heap⟩)) ?_
  have leaves : ∀ bar : Int, Reflects (Dll.Meets (σ := σ) (ResultFits E.toCLib)) (leave bar) :=
    fun _ => reflects_of_grows (.check growing.toFrame _)
  refine EnsuresIf.bind (Q := fun _ t => PinAgrees t) ?_ (fun _ => leaves _) fun _ t agrees =>
    .of_ok (run_check _ t) fun _ => agrees.of_same rfl rfl
  refine (callHook_returns E .gCalculate pushPString_pushes stack heap).bind_if
    fun found t ⟨v, heap', events, same, missing⟩ => ?_
  subst same
  refine .ite (fun _ => ?_) fun no => ?_
  · have here : PinAgrees (s.note events) := agrees.of_same rfl rfl
    have reflects : Reflects (Dll.Meets (ResultFits E.toCLib)) (takeTable (σ := σ)
        (stack.length - 1) 1 (fun s => s.gNumOutputs.toNat) (readOutput E (stack.length - 1))
        (setError 1)) :=
      reflects_of_grows (takeTable_within growing (by simp) _ _ _
        (readOutput_within E growing (by simp) _) (.setError growing 1))
    refine EnsuresIf.answer reflects fun fits => ?_
    exact ((readResult_keeps E (s := s.note events) (Int.le_refl _) fits).mono
      (fun _ t ⟨flag, pin⟩ => here.of_same flag pin) fun _ _ h => h).conditional
  -- the record tells of the missing function, against the assumption
  · have noted := missing (by simpa using no)
    subst noted
    refine .of_ok (run_setError 1 _) fun meets => ?_
    exact (Dll.Meets.noted meets : Event.Meets (ResultFits E.toCLib) _).elim

/-- A call of `CCalculateEx` that returns leaves flag and pin in agreement. A
start sets both, an error is reported on the pin, and a step without one leaves
them alone. -/
theorem cCalculateEx_agrees (ready : Ready s)
    (agrees : s.gCSimStartOverride = 0 → PinAgrees s) :
    EnsuresIf (Dll.Meets (ResultFits E.toCLib)) (cCalculateEx E) s (fun _ t => PinAgrees t)
      (fun _ _ => True) := by
  have start : Ensures (startOverride E) s (fun _ t => PinAgrees t) (fun _ _ => True) := by
    refine .step (run_get s)
      (.ite (fun _ => ?_) fun settled => .pure (agrees (by simpa using settled)))
    refine (cSimStartFlaw_reports E s).bind fun _ t reported => .modify ?_
    rcases reported with ⟨flag, pin⟩ | ⟨flag, pin⟩
    · simp [PinAgrees, flag, pin, plOk, plError, logicLow, logicHigh]
    · simp [PinAgrees, flag, pin]
  have both := ((startOverride_outcome E ready).and start).mono (fun _ _ h => h)
    fun _ _ _ => trivial
  refine both.bind_if fun _ t ⟨inv, agrees⟩ => (consoleStep_outcome t).bind_if fun _ u only => ?_
  replace agrees : PinAgrees u := agrees.of_same only.gERROR (by rw [only.host])
  refine .step (run_get u) (.ite (fun error => ?_) fun fine => ?_)
  · refine .of_ok (run_setPOutput 0 plError u) fun _ => ?_
    simp [PinAgrees, error]
  · have zero : u.gERROR = 0 := by simpa using fine
    obtain ⟨⟨stack, heap⟩, live⟩ :=
      Option.isSome_iff_exists.mp ((inv.console only).2 zero)
    exact calculate_agrees E agrees live

end Step

/-! ### Flag and pin through a run -/

/-- The host does not write `POutput[0]`. -/
def HostCall.SparesPin (c : HostCall) : Prop := ∀ h, (c.write h).pOutput 0 = h.pOutput 0

/-- What holds between the calls of a run. -/
structure PinInv (phase : Phase) (s : Dll σ) : Prop where
  inv : phase.Inv s
  agrees : phase = .running → PinAgrees s

/-- One call of the protocol: with results of `gCalculate` that fit, the pin
says what the flag says after every step of a simulation. Nothing is claimed of
the other phases, where `CSimStart` and queries may set the flag alone. -/
theorem HostCall.pinAgrees {before after : Phase} {c : HostCall} {s : Dll σ}
    (move : before.next c = some after) (spares : c.SparesPin) (here : PinInv before s) :
    EnsuresIf (Dll.Meets (ResultFits E.toCLib)) (c.perform E) s (fun _ t => PinInv after t)
      (fun _ _ => True) := by
  have kept := (HostCall.perform_inv E move here.inv).conditional
    (P := Dll.Meets (ResultFits E.toCLib))
  by_cases runs : after = .running
  swap
  · exact kept.mono (fun _ _ inv => ⟨inv, fun yes => absurd yes runs⟩) fun _ _ h => h
  subst runs
  have busy : before ≠ .idle := by
    rintro rfl
    rcases Phase.next_idle move with ⟨_, no⟩ | ⟨_, no⟩ <;> cases no
  rcases Phase.next_busy busy move with ⟨run, _⟩ | ⟨_, no⟩
  swap
  · cases no
  have agrees : EnsuresIf (Dll.Meets (ResultFits E.toCLib)) (c.perform E) s
      (fun _ t => PinAgrees t) (fun _ _ => True) := by
    refine HostCall.ensures E ?_
    have ready := (here.inv.host (c.write s.host)).ready busy
    rw [run, Entry.perform_cCalculateEx]
    have settled : s.gCSimStartOverride = 0 → PinAgrees { s with host := c.write s.host } := by
      intro zero
      have running : before = .running := by
        cases before with
        | idle => exact absurd rfl busy
        | started => exact absurd zero here.inv.2
        | running => rfl
      exact (here.agrees running).of_same rfl (spares s.host)
    exact (cCalculateEx_agrees E ready settled).bind
      (fun _ => Preserves.pure (fun _ => id) _) fun _ _ agrees => .pure fun _ => agrees
  exact (Ensures.and kept agrees).mono (fun _ _ both meets => ⟨both.1 meets, fun _ => both.2 meets⟩)
    fun _ _ _ _ => trivial

/-- Whenever `CCalculateEx` has returned, pin and flag agree, as long as every
`gCalculate` called so far was there and gave a table that fits. The host must
not write the pin itself. -/
theorem pin_agrees (host : Host) (calls : List HostCall)
    (protocol : follow Phase.next .idle calls = some .running)
    (spares : ∀ c ∈ calls, c.SparesPin) :
    EnsuresIf (Dll.Meets (ResultFits E.toCLib)) (runCalls E calls) (Dll.init host)
      (fun _ t => PinAgrees t) (fun _ _ => True) := by
  have start : PinInv .idle (Dll.init (σ := σ) host) := ⟨rfl, fun no => by cases no⟩
  have run := EnsuresIf.runAll_along (fun c => HostCall.reflects E c)
    (fun _ _ _ _ move spares here => HostCall.pinAgrees E move spares here) protocol
    (Along.of_all spares _) start
  exact run.mono (fun _ _ here => here.agrees rfl) fun _ _ h => h

/-- The calls of a session that has made two steps. -/
def steppedTwice : List HostCall :=
  quietCalls [.cNumInputsEx, .cNumOutputsEx, .cSimStart, .cCalculateEx, .cCalculateEx]

theorem quietCalls_sparesPin (entries : List Entry) :
    ∀ c ∈ quietCalls entries, c.SparesPin := by
  intro c mem
  obtain ⟨entry, _, rfl⟩ := List.mem_map.mp mem
  exact fun _ => rfl

theorem pin_agrees_steppedTwice :
    ∃ rs t, runCalls sampleScript steppedTwice (Dll.init sampleHost) = .ok rs t ∧ PinAgrees t := by
  have sample : Ensures (runCalls sampleScript steppedTwice) (Dll.init sampleHost)
      (fun _ t => t.Meets (ResultFits sampleScript.toCLib)) (fun _ _ => False) := by
    decide +kernel
  obtain ⟨rs, t, run, meets⟩ := sample.returns
  have agrees := pin_agrees sampleScript sampleHost steppedTwice (by decide)
    (quietCalls_sparesPin _)
  exact ⟨rs, t, run, agrees.ok run meets⟩

/-- A script without `gCalculate`. -/
def stepless : Env Unit :=
  sampleEnv [("gNumInputs", .number (.ofNat 1)), ("gNumOutputs", .number (.ofNat 1)),
    ("gSimStart", .function 1)] fun _ args h => (args, h)

/-- The first step raises the flag, and the pin shows no error. -/
theorem stepless_disagrees :
    follow Phase.next .idle (quietCalls [.cNumInputsEx, .cNumOutputsEx, .cSimStart,
      .cCalculateEx]) = some .running ∧
    ∃ rs t, runCalls stepless (quietCalls [.cNumInputsEx, .cNumOutputsEx, .cSimStart,
      .cCalculateEx]) (Dll.init sampleHost) = .ok rs t ∧ ¬PinAgrees t := by
  have run : Ensures (runCalls stepless (quietCalls [.cNumInputsEx, .cNumOutputsEx, .cSimStart,
      .cCalculateEx])) (Dll.init sampleHost)
      (fun _ t => t.gERROR = 1 ∧ t.host.pOutput 0 = plOk) (fun _ _ => False) := by
    decide +kernel
  obtain ⟨rs, t, returned, flag, pin⟩ := run.returns
  refine ⟨by decide, rs, t, returned, fun agrees => ?_⟩
  have shown := agrees.mpr (by rw [flag]; decide)
  rw [pin] at shown
  exact absurd shown (by decide)

end ProfiLua
