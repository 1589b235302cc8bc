import ProfiLua.Dll.Session

/-!
The error flag latches.

Once `gERROR` is set and no start is pending, nothing but `CSimStart` makes the
DLL call the functions of the simulation again: every `CCalculateEx` reports the
error, every `CSimStop` closes the script and the console without touching the
parameters, and the flag stays set (`errors_latch`).
-/

namespace ProfiLua

open Program

variable {σ : Type} (E : Env σ)

/-- A call of `gSimStart`, `gCalculate` or `gSimStop`. -/
def Event.RunsSimulation : Event → Prop
  | .activation (.hook .gSimStart) _ => True
  | .activation (.hook .gCalculate) _ => True
  | .activation (.hook .gSimStop) _ => True
  | _ => False

/-- The record gained no call of the functions of the simulation. -/
abbrev Quiet (s t : Dll σ) : Prop := Grows (fun e => ¬e.RunsSimulation) s t

/-- A query runs a chunk or a name function, never a function of the simulation.
-/
theorem Event.OfQuery.quiet {e : Event} (query : e.OfQuery) : ¬e.RunsSimulation := by
  cases e with
  | activation what argument =>
      cases what with
      | chunk purpose => exact id
      | hook hook => cases hook <;> simp_all [OfQuery, RunsSimulation]
  | _ => exact id

theorem Event.OfConsole.quiet {e : Event} (console : e.OfConsole) : ¬e.RunsSimulation := by
  cases e with
  | activation what argument => exact console.elim
  | _ => exact id

/-! ### The console flag -/

/-- Nothing but the console steps touches the flag or the window. -/
theorem ConsoleAgrees.frame :
    EntryFrame fun s t : Dll σ => ConsoleAgrees s → ConsoleAgrees t where
  refl := fun _ => id
  trans := fun _ _ _ h k agrees => k (h agrees)
  setL := fun _ _ => id
  markers := fun _ _ _ => id
  balanced := fun _ _ => id
  epoch := fun _ => id
  note := fun _ _ _ => id
  gFileNum := fun _ _ => id
  counts := fun _ _ _ => id
  raised := fun _ => id
  gERROR := fun _ _ => id
  host := fun _ _ => id
  gCSimStartOverride := fun _ _ => id
  console := fun _ _ only => only.agrees

/-- In every reachable state the flag and the window agree, since both are
changed together. -/
theorem consoleAgrees_of_run {host : Host} {calls : List HostCall} {rs : List Returned} {s : Dll σ}
    (run : runCalls E calls (Dll.init host) = .ok rs s) : ConsoleAgrees s := by
  refine runAll_preserves (fun t c r u agrees outcome => ?_) run (by simp [ConsoleAgrees, Dll.init])
  exact ((HostCall.within E ConsoleAgrees.frame c t trivial).ok outcome).2 agrees

/-! ### Latched states -/

/-- The error flag is set, and no start is pending that would clear it. -/
structure Latched (s : Dll σ) : Prop where
  error : s.gERROR ≠ 0
  settled : s.gCSimStartOverride = 0
  agrees : ConsoleAgrees s

/-- What a call in a latched state does: `s` is the state before it, with the
host's arrays as they are passed. -/
structure LatchedCall (entry : Entry) (s t : Dll σ) : Prop where
  gERROR : t.gERROR ≠ 0
  quiet : Quiet s t
  calculate : entry = .cCalculateEx →
    t.host = { s.host with pOutput := Function.update s.host.pOutput 0 plError }
  stop : entry = .cSimStop → t.host = s.host ∧ t.L = none ∧ t.console = false
  query : entry.IsQuery → t.host = s.host

variable {s : Dll σ}

/-- The error stays whatever the host writes. -/
theorem Latched.host (h : Latched s) (host : Host) : Latched { s with host := host } :=
  ⟨h.error, h.settled, h.agrees⟩

/-- What the console does leaves the error flag and the override alone. -/
theorem Latched.console {t : Dll σ} (h : Latched s) (only : ConsoleOnly s t) : Latched t :=
  ⟨only.gERROR.symm ▸ h.error, only.gCSimStartOverride.trans h.settled, only.agrees h.agrees⟩

/-- A query may add an error, it does not take one back, and it has no part in
the console. -/
theorem Latched.session {t : Dll σ} (h : Latched s) (same : SameSession s t) : Latched t := by
  refine ⟨same.gERROR h.error, same.gCSimStartOverride.trans h.settled, ?_⟩
  unfold ConsoleAgrees
  rw [same.console, same.gConsole]
  exact h.agrees

/-- A query of a simulation in error: it may run the chunk of the script and its
name functions, and both may stop it, with the flag still set. -/
theorem Latched.query (h : Latched s) {entry : Entry} (query : entry.IsQuery) :
    Ensures (entry.perform E) s (fun _ t => Latched t ∧ LatchedCall entry s t)
      (fun _ t => entry.IsQuery ∧ Latched t ∧ Quiet s t) := by
  have asked : Within .either SameSession (entry.perform E) :=
    Entry.query_within E SameSession.askFrame (fun _ h => h) (by simp) query
  have quiet : ∀ {t : Dll σ}, SameSession s t → Quiet s t := fun same =>
    same.trace.mono fun _ => Event.OfQuery.quiet
  refine (asked s trivial).mono (fun _ t ⟨_, same⟩ => ⟨h.session same, ?_⟩)
    fun _ t ⟨_, same⟩ => ⟨query, h.session same, quiet same⟩
  refine ⟨(h.session same).error, quiet same, ?_, ?_, fun _ => same.host⟩
  · rintro rfl
    exact query.elim
  · rintro rfl
    exact query.elim

/-- A step in error reports it on the pin and calls nothing. No start is
pending, so the flag it sees is the one before it. -/
theorem Latched.calculate (h : Latched s) {A : Stop → Dll σ → Prop} :
    Ensures (cCalculateEx E) s (fun _ t => Latched t ∧ LatchedCall .cCalculateEx s t) A := by
  have noStart : Ensures (startOverride E) s (fun _ t => t = s) A := by
    unfold startOverride
    rw [ensures_bind, ensures_get, if_neg (by simpa using h.settled)]
    exact .pure rfl
  refine noStart.bind fun _ t same => ?_
  subst same
  refine (consoleStep_outcome t).bind fun _ u only => ?_
  have latched := h.console only
  rw [ensures_bind, ensures_get, if_pos latched.error]
  refine .of_ok (run_setPOutput 0 plError u) ⟨latched.host _, ?_⟩
  have quiet : Quiet t u := only.trace.mono fun _ => Event.OfConsole.quiet
  refine ⟨latched.error, quiet.trans (.of_same rfl rfl), fun _ => ?_, ?_, ?_⟩
  · simp only [only.host]
  · rintro ⟨⟩
  · exact False.elim

/-- A stop in error closes the state and the console, and calls nothing either.
`PUser` is not read back. -/
theorem Latched.stop (h : Latched s) {A : Stop → Dll σ → Prop} :
    Ensures (cSimStop E) s (fun _ t => Latched t ∧ LatchedCall .cSimStop s t) A := by
  have noScript : Ensures (stopScript E) s (fun _ t => t = s) A := by
    unfold stopScript
    rw [ensures_bind, ensures_get, if_neg h.error]
    exact .pure rfl
  refine noScript.bind fun _ t same => ?_
  subst same
  refine (closeLuaScript_outcome (SameSession.askFrame.toOpeningFrame) trivial t).bind
    fun _ u ⟨closed, same⟩ => ?_
  have latched := h.session same
  refine (consoleStop_outcome u).mono (fun _ v ⟨only, down⟩ => ?_) fun _ _ h => h
  have final := latched.console only
  refine ⟨final, final.error, ?_, ?_, fun _ => ⟨?_, ?_, ?_⟩, False.elim⟩
  · exact (same.trace.mono fun _ => Event.OfQuery.quiet).trans
      (only.trace.mono fun _ => Event.OfConsole.quiet)
  · rintro ⟨⟩
  · rw [only.host, same.host]
  · rw [only.L, closed]
  · exact Bool.eq_false_iff.mpr fun shown => down (final.agrees.mp shown)

/-- One call other than `CSimStart` in a latched state. Only a query can be
stopped. -/
theorem Latched.perform (h : Latched s) {entry : Entry} (other : entry ≠ .cSimStart) :
    Ensures (entry.perform E) s (fun _ t => Latched t ∧ LatchedCall entry s t)
      (fun _ t => entry.IsQuery ∧ Latched t ∧ Quiet s t) := by
  by_cases query : entry.IsQuery
  · exact h.query E query
  · cases entry with
    | cSimStart => exact absurd rfl other
    | cCalculateEx => exact (h.calculate E).bind fun _ _ done => .pure done
    | cSimStop => exact (h.stop E).bind fun _ _ done => .pure done
    | _ => exact absurd trivial query

/-- Errors latch until the next start: from any reachable state with the error
flag set and no start pending, every call up to the next `CSimStart` behaves as
`LatchedCall` says. Only the script chunk of a query can stop the run, and not
before the flag has been kept. -/
theorem errors_latch (host : Host) (before : List HostCall) (rs : List Returned) (s : Dll σ)
    (reach : runCalls E before (Dll.init host) = .ok rs s) (error : s.gERROR ≠ 0)
    (settled : s.gCSimStartOverride = 0) (calls : List HostCall)
    (noStart : ∀ c ∈ calls, c.entry ≠ .cSimStart) :
    Along (HostCall.perform E) (fun t c => Ensures (c.perform E) t
      (fun _ u => LatchedCall c.entry { t with host := c.write t.host } u)
      (fun _ u => c.entry.IsQuery ∧ u.gERROR ≠ 0 ∧ Quiet t u)) calls s := by
  refine Along.of_invariant (I := Latched) (fun t c other latched => ?_)
    (fun t c _ u other latched outcome => ?_) noStart ⟨error, settled, consoleAgrees_of_run E reach⟩
  · refine HostCall.ensures E (((latched.host (c.write t.host)).perform E other).mono ?_ ?_)
    · exact fun _ _ ⟨_, done⟩ => done
    · have passed : Quiet t { t with host := c.write t.host } := .of_same rfl rfl
      exact fun _ _ ⟨query, kept, quiet⟩ => ⟨query, kept.error, passed.trans quiet⟩
  · exact ((HostCall.ensures E ((latched.host (c.write t.host)).perform E other)).ok outcome).1

/-- Without memory for a Lua state the first `CCalculateEx` sets the flag, and
it stays set over a stop, queries and another step. -/
theorem errors_latch_without_memory :
    ∃ rs s, runCalls { sampleScript with luaOpen := fun _ => none }
        (quietCalls [.cSimStart, .cCalculateEx]) (Dll.init sampleHost) = .ok rs s ∧
      Along (HostCall.perform { sampleScript with luaOpen := fun _ => none }) (fun t c =>
        Ensures (c.perform { sampleScript with luaOpen := fun _ => none }) t
          (fun _ u => LatchedCall c.entry { t with host := c.write t.host } u)
          (fun _ u => c.entry.IsQuery ∧ u.gERROR ≠ 0 ∧ Quiet t u))
        (quietCalls [.cSimStop, .cNumInputsEx, .cNumOutputsEx, .cCalculateEx]) s := by
  have failed : Ensures (runCalls { sampleScript with luaOpen := fun _ => none }
      (quietCalls [.cSimStart, .cCalculateEx])) (Dll.init sampleHost)
      (fun _ s => s.gERROR ≠ 0 ∧ s.gCSimStartOverride = 0) (fun _ _ => False) := by
    decide +kernel
  obtain ⟨rs, s, run, error, settled⟩ := failed.returns
  exact ⟨rs, s, run, errors_latch _ sampleHost _ rs s run error settled _ (by decide)⟩

end ProfiLua
