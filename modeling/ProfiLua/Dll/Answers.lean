import ProfiLua.Dll.Steps

/-!
The start, the step and the stop, cut where the script has answered.

`askStart`, `askStep` and `askPUser` are their first halves: they end with the
script's answer on top of the Lua stack, or without one. `finishStart`,
`finishStep` and `finishStop` are the other halves (`cSimStartFlaw_eq`,
`runStep_eq`, `cSimStop_eq`), so that what the script answers can be said without
running what is then done with it.
-/

namespace ProfiLua

open Program

variable {σ : Type} (E : Env σ)

/-! ### The halves -/

/-- How far a first half came; `bar` is the height of the stack below the answer. -/
inductive Reach where
  | skipped
  | missing (bar : Int)
  | answered (bar : Int)
deriving DecidableEq

/-- `CSimStartFlaw` up to the call of `gSimStart`. It is skipped without memory
for the script. -/
def askStart : DllM σ Reach := do
  setError 1
  setPOutput 0 plError
  consoleStart
  queryMarkers E
  if ← openLuaScript E .session then
    let bar ← height
    storePUser E
    if ← callHook E .gSimStart stringDummy 1 then return .answered bar
    else return .missing bar
  else return .skipped

def finishStart : Reach → DllM σ PUnit
  | .skipped => pure ⟨⟩
  | .missing bar => leave bar
  | .answered bar => do
      readStartResult E bar
      setPOutput 0 plOk
      setError 0
      leave bar

/-- `CCalculateEx` up to the call of `gCalculate`. It is skipped with the error
flag set. -/
def askStep : DllM σ Reach := do
  consoleStep
  if (← get).gERROR ≠ 0 then
    setPOutput 0 plError
    return .skipped
  else
    let bar ← height
    if ← callHook E .gCalculate pushPString 1 then return .answered bar
    else return .missing bar

def finishStep : Reach → DllM σ PUnit
  | .skipped => pure ⟨⟩
  | .missing bar => do
      setError 1
      leave bar
  | .answered bar => do
      readResult E bar
      leave bar

/-- `CSimStop` up to the lookup of `gPUser`. It is skipped with the error flag
set. -/
def askPUser : DllM σ Reach := do
  if (← get).gERROR = 0 then
    callStop E
    let bar ← height
    onL (luaPushstring (lit "gPUser"))
    onL (luaGettable E globalsIndex)
    return .answered bar
  else return .skipped

/-- What is done with `gPUser`. -/
def takePUser : Reach → DllM σ PUnit
  | .answered bar => do
      emitReply .gPUser
      takeTable bar 0 (fun _ => 100) (readPUser E bar) (pure ())
  | _ => pure ⟨⟩

def finishStop (reach : Reach) : DllM σ PUnit := do
  takePUser E reach
  closeLuaScript
  consoleStop

/-- The start is what leads to the answer of `gSimStart`, and what is done with
it. -/
theorem cSimStartFlaw_eq : cSimStartFlaw E = askStart E >>= finishStart E := by
  unfold cSimStartFlaw askStart startSession startScript
  simp only [bind_assoc, ite_bind, pure_bind, finishStart]

theorem runStep_eq : runStep E = askStep E >>= finishStep E := by
  unfold runStep askStep calculate exchange
  simp only [bind_assoc, ite_bind, pure_bind, finishStep, bind_pure_unit]

theorem cSimStop_eq : cSimStop E = askPUser E >>= finishStop E := by
  unfold cSimStop askPUser stopScript restorePUser finishStop
  simp only [bind_assoc, ite_bind, pure_bind, takePUser]

/-! ### Where the first halves lead -/

/-- The script was called and has answered. -/
def Reach.Answered (reach : Reach) : Prop := ∃ bar, reach = .answered bar

theorem Reach.not_skipped : ¬Reach.skipped.Answered := by
  rintro ⟨bar, no⟩
  cases no

theorem Reach.not_missing (bar : Int) : ¬(Reach.missing bar).Answered := by
  rintro ⟨bar', no⟩
  cases no

section Halves

variable {s : Dll σ} {A : Stop → Dll σ → Prop}

/-- The session is opened and `gSimStart` called without a look at the error
flag or the host's outputs. -/
theorem askSession_within : Within .either SameControl (do
    if ← openLuaScript E .session then
      let bar ← height
      storePUser E
      if ← callHook E .gSimStart stringDummy 1 then return .answered bar
      else return .missing bar
    else return .skipped : DllM σ Reach) := by
  have F : NameFrame (fun _ => True) (SameControl (σ := σ)) := SameControl.frame _
  have F' := F.toFrame
  have opening : Within .either SameControl (openLuaScript E .session) :=
    openLuaScript_within E F.toOpeningFrame (fun _ _ => trivial) .session trivial
  have hook : Within .either SameControl (callHook E .gSimStart stringDummy 1) :=
    callHook_within E F' (fun _ _ => trivial) (by simp) .gSimStart
      (stringDummy_within F' (by simp)) 1
  refine .bind F' opening fun opened => .ite ?_ (.pure F' _)
  refine .bind F' (.height F') fun bar => .bind F' (storePUser_within E F' (by simp)) fun _ => ?_
  exact .bind F' hook fun found => .ite (.pure F' _) (.pure F' _)

/-- Until `gSimStart` has answered, a start is reported as failed: the flag and
the pin are set first, and nothing up to the answer takes them back. -/
theorem askStart_outcome (s : Dll σ) :
    Ensures (askStart E) s (fun _ u => u.gERROR = 1 ∧ u.host.pOutput 0 = plError)
      (fun _ _ => True) := by
  refine .step (run_setError 1 s) (.step (run_setPOutput 0 plError _) ?_)
  refine (consoleStart_outcome _).bind fun _ t only => ?_
  have F : NameFrame (fun _ => True) (SameControl (σ := σ)) := SameControl.frame _
  have queries : Within .either SameControl (queryMarkers E) :=
    queryMarkers_within E F (fun _ _ => trivial) (by simp)
  have rest := Within.bind F.toFrame queries fun _ => askSession_within E
  refine (rest t trivial).mono (fun reach u ⟨_, same⟩ => ⟨?_, ?_⟩) fun _ _ _ => trivial
  · rw [same.gERROR, only.gERROR]
  · rw [same.host, only.host]
    simp

/-- Once `gSimStart` has answered, a start that returns is reported as done,
whatever the answer was. If it was not called, the second half leaves the report
alone. -/
theorem finishStart_outcome (reach : Reach) (u : Dll σ) :
    Ensures (finishStart E reach) u
      (fun _ t => (reach.Answered → t.gERROR = 0 ∧ t.host.pOutput 0 = plOk) ∧
        (¬reach.Answered → t.gERROR = u.gERROR ∧ t.host = u.host)) (fun _ _ => True) := by
  cases reach with
  | skipped => exact .pure ⟨fun yes => absurd yes Reach.not_skipped, fun _ => ⟨rfl, rfl⟩⟩
  | missing bar =>
      exact .modify ⟨fun yes => absurd yes (Reach.not_missing bar), fun _ => ⟨rfl, rfl⟩⟩
  | answered bar =>
      refine (Ensures.trivially (readStartResult E bar) u).bind fun _ v _ => ?_
      refine .step (run_setPOutput 0 plOk v) (.step (run_setError 0 _) (.modify ⟨fun _ => ?_, ?_⟩))
      · exact ⟨rfl, by simp⟩
      · exact fun no => absurd ⟨bar, rfl⟩ no

/-- A start that returns says on the pin what it says in the flag. -/
theorem cSimStartFlaw_reports (s : Dll σ) :
    Ensures (cSimStartFlaw E) s
      (fun _ t => t.gERROR = 0 ∧ t.host.pOutput 0 = plOk ∨
        t.gERROR = 1 ∧ t.host.pOutput 0 = plError) (fun _ _ => True) := by
  rw [cSimStartFlaw_eq]
  refine (askStart_outcome E s).bind fun reach u ⟨raised, pin⟩ => ?_
  refine (finishStart_outcome E reach u).mono (fun _ t ⟨done, failed⟩ => ?_) fun _ _ h => h
  by_cases answered : reach.Answered
  · exact .inl (done answered)
  · obtain ⟨flag, host⟩ := failed answered
    exact .inr ⟨flag.trans raised, by rw [host]; exact pin⟩

/-! ### The answer -/

/-- The answer lies on top of the stack. -/
def Reach.OnTop (reach : Reach) (u : Dll σ) : Prop :=
  ∀ bar, reach = .answered bar →
    ∃ v stack heap, u.L = some ⟨v :: stack, heap⟩ ∧ bar = (stack.length : Int) - 1

/-- Without a Lua state no function is called. -/
theorem callHook_null {hook : Hook} {marked : Nat → DllM σ PUnit} (closed : s.L = none) :
    Ensures (callHook E hook marked 1) s (fun _ _ => False) (fun _ _ => True) := by
  unfold callHook
  rw [ensures_bind]
  exact .of_error (onL_null closed _) trivial

/-- Calling a script function, with the height of the stack taken before. One
result is asked for, so what the function returned lies just above that height.
-/
theorem callHook_onTop {hook : Hook} {marked : Nat → DllM σ PUnit} {text : Nat → TValue}
    (pushes : Pushes s marked text) {l : LuaState σ} (live : s.L = some l) :
    Ensures (do
      if ← callHook E hook marked 1 then return .answered l.gettop
      else return .missing l.gettop : DllM σ Reach) s
      (fun reach u => reach.OnTop u ∧ u.gERROR = s.gERROR) (fun _ _ => True) := by
  obtain ⟨stack, heap⟩ := l
  rw [← Dll.withL_self live]
  refine (callHook_returns E hook pushes stack heap).bind
    fun found t ⟨v, heap', events, same, _⟩ => ?_
  subst same
  refine .ite (fun _ => .pure ⟨fun bar reached => ?_, rfl⟩) fun _ =>
    .pure ⟨fun bar reached => ?_, rfl⟩
  · cases reached
    exact ⟨v, stack, heap', rfl, rfl⟩
  · cases reached

/-- If an answer was reached it lies on top of the stack, above the bar, and no
error is flagged. -/
theorem askStep_onTop (s : Dll σ) :
    Ensures (askStep E) s
      (fun reach u => reach.OnTop u ∧ (reach.Answered → u.gERROR = 0)) (fun _ _ => True) := by
  refine (consoleStep_outcome s).bind fun _ t _ => .step (run_get t)
    (.ite (fun _ => ?_) fun fine => ?_)
  · exact .step (run_setPOutput 0 plError t)
      (.pure ⟨fun bar no => absurd ⟨bar, no⟩ Reach.not_skipped,
        fun no => absurd no Reach.not_skipped⟩)
  · have zero : t.gERROR = 0 := by simpa using fine
    -- without a state and without an error, the first use of `L` stops the step
    cases live : t.L with
    | none =>
        refine .step (x := height) rfl ?_
        exact (callHook_null E live).bind fun _ _ no => no.elim
    | some l =>
        rw [← Dll.withL_self live]
        refine .step run_height ?_
        rw [Dll.withL_self live]
        exact (callHook_onTop E pushPString_pushes live).mono
          (fun _ _ ⟨top, flag⟩ => ⟨top, fun _ => flag.trans zero⟩) fun _ _ h => h

/-- What opens the session leaves the script open, and a script that could not
be opened is closed. -/
theorem openLuaScript_opens (s : Dll σ) (purpose : Purpose) :
    Ensures (openLuaScript E purpose) s (fun opened t => t.L.isSome = opened)
      (fun _ _ => True) := by
  have F : OpeningFrame (fun _ => True) (fun _ _ : Dll σ => True) :=
    { refl := fun _ => trivial, trans := fun _ _ _ _ _ => trivial, setL := fun _ _ => trivial
      balanced := fun _ _ => trivial, note := fun _ _ _ => trivial, epoch := fun _ => trivial }
  exact (openLuaScript_run E F (fun _ _ => trivial) purpose trivial s).mono
    (fun _ _ ⟨live, _⟩ => live) fun _ _ _ => trivial

/-- The answer of `gSimStart` lies on top of the stack. What the start did
before, the queries included, need not be known for it. -/
theorem askStart_onTop (s : Dll σ) :
    Ensures (askStart E) s (fun reach u => reach.OnTop u) (fun _ _ => True) := by
  refine .step (run_setError 1 s) (.step (run_setPOutput 0 plError _) ?_)
  refine (Ensures.trivially consoleStart _).bind fun _ t _ => ?_
  refine (Ensures.trivially (queryMarkers E) t).bind fun _ u _ => ?_
  refine (openLuaScript_opens E u .session).bind fun opened v live =>
    .ite (fun yes => ?_) fun _ => ?_
  · obtain ⟨⟨stack, heap⟩, open'⟩ := Option.isSome_iff_exists.mp (live.trans yes)
    rw [← Dll.withL_self open']
    refine .step run_height ?_
    refine ((storePUser_outcome E stack heap).mono (fun _ _ h => h) fun _ _ _ => trivial).bind
      fun _ w ⟨heap', _, same⟩ => ?_
    subst same
    exact (callHook_onTop E (s := v.withL ⟨stack, heap'⟩) stringDummy_pushes rfl).mono
      (fun _ _ h => h.1) fun _ _ h => h
  · exact .pure fun bar no => absurd ⟨bar, no⟩ Reach.not_skipped

/-- What was found as `gPUser` lies on top of the stack, after a `gSimStop` of
which no result is taken. -/
theorem askPUser_onTop (s : Dll σ) :
    Ensures (askPUser E) s (fun reach u => reach.OnTop u) (fun _ _ => True) := by
  refine .step (run_get s) (.ite (fun _ => ?_) fun _ => ?_)
  · refine (Ensures.trivially (callStop E) s).bind fun _ t _ => ?_
    cases live : t.L with
    | none =>
        refine .step (x := height) rfl ?_
        rw [ensures_bind]
        exact .of_error (onL_null live _) trivial
    | some l =>
        obtain ⟨stack, heap⟩ := l
        rw [← Dll.withL_self live]
        refine .step run_height (.step (run_onL (run_push _ _)) ?_)
        have lookup : Ensures (onL (luaGettable E globalsIndex))
            (t.withL ⟨.string (cstr (lit "gPUser")) :: stack, heap⟩)
            (fun _ u => ∃ v heap', u.L = some ⟨v :: stack, heap'⟩) (fun _ _ => True) :=
          ensures_onL ((luaGettable_globals_rule E _).mono (fun _ l ⟨v, heap', same, _⟩ =>
            ⟨v, heap', by rw [same]; rfl⟩) fun _ _ _ => trivial)
        refine lookup.bind fun _ u ⟨v, heap', top⟩ => .pure fun bar reached => ?_
        cases reached
        exact ⟨v, stack, heap', top, rfl⟩
  · exact .pure fun bar no => absurd ⟨bar, no⟩ Reach.not_skipped

end Halves

end ProfiLua
