import ProfiLua.Dll.Steps

/-!
The stack discipline of a session.

The record notes with every read of a table that index -2 is that table, with
every pop that the stack stays as high as the function had it, and at the end of
`CSimStartFlaw` and `CCalculateEx` that it is as high again. All of these hold
through any session whose tables are well typed (`stack_discipline`). One
element of another type is popped twice, and the table with it
(`badElement_unbalances`).
-/

namespace ProfiLua

open Program

variable {σ : Type} (E : Env σ)

/-- A reply the read-back loops can store whole: `gSimStart` and `gCalculate` give
a table, and `gPUser` may also be no table. -/
def WellTyped (C : CLib) : ReplyCondition
  | .result .gSimStart, outputs, marked, answer => answer.FitsStart C outputs marked
  | .result .gCalculate, outputs, marked, answer => answer.Fits C outputs marked
  | .gPUser, _, _, answer => answer.IsTable → answer.FitsPUser C
  | _, _, _, _ => True

instance {C : CLib} : ∀ source outputs marked, DecidablePred (WellTyped C source outputs marked)
  | .result .gSimStart, outputs, marked, answer =>
      inferInstanceAs (Decidable (answer.FitsStart C outputs marked))
  | .result .gCalculate, outputs, marked, answer =>
      inferInstanceAs (Decidable (answer.Fits C outputs marked))
  | .gPUser, _, _, answer => inferInstanceAs (Decidable (answer.IsTable → answer.FitsPUser C))
  | .result .gSimStop, _, _, _ => .isTrue trivial
  | .result .gInputName, _, _, _ => .isTrue trivial
  | .result .gOutputName, _, _, _ => .isTrue trivial

/-- A well-typed reply can be read. -/
theorem WellTyped.reads (C : CLib) (source : Source) : Reads C (WellTyped C) source := by
  intro outputs marked answer typed
  cases source with
  | gPUser => exact typed
  | result hook =>
      cases hook with
      | gSimStart => exact fun _ => typed
      | gCalculate => exact fun _ => typed
      | _ => trivial

section Balance

variable {s t : Dll σ} {stack : List TValue} {heap : Heap σ} {C : CLib}

/-- With its answer well typed, an exchange leaves the stack as it was. -/
theorem Exchanged.balance (h : Exchanged E s stack heap t)
    (typed : t.Meets (WellTyped E.toCLib)) :
    t.balanced = s.balanced ∧ ∃ heap', t.L = some ⟨stack, heap'⟩ := by
  cases h with
  | missing => exact (Dll.Meets.noted (s := s) typed).elim
  | other _ _ other =>
      exact absurd (Dll.Meets.noted (s := s.called .gCalculate (stepText s)) typed)
        (not_fits_of_other other)
  | stored => exact ⟨rfl, _, rfl⟩

/-- With a well-typed reply nothing stays on the stack after the start but what lay
there before. -/
theorem Started.balance (h : Started E s stack heap t)
    (typed : t.Meets (WellTyped E.toCLib)) :
    t.balanced = s.balanced ∧ ∃ heap', t.L = some ⟨stack, heap'⟩ := by
  cases h with
  | missing => exact (Dll.Meets.noted (s := s) typed).elim
  | other _ _ other =>
      exact absurd (Dll.Meets.noted (s := s.called .gSimStart dummyText) typed)
        (not_fitsStart_of_other other)
  | stored => exact ⟨rfl, _, rfl⟩

/-- The check at the end passes when the stack is as it was. -/
theorem balanced_of_height {u : Dll σ} (level : ∃ heap', u.L = some ⟨stack, heap'⟩) :
    (u.balanced && u.L.all fun l => decide (l.gettop = (stack.length : Int) - 1)) =
      u.balanced := by
  obtain ⟨heap', live⟩ := level
  simp [live, LuaState.gettop]

theorem StepDone.balance (h : StepDone E s t) (typed : t.Meets (WellTyped E.toCLib)) :
    t.balanced = s.balanced := by
  cases h with
  | reported only => exact only.balanced
  | exchanged only _ _ exchanged =>
      obtain ⟨kept, level⟩ := exchanged.balance E typed
      exact (balanced_of_height level).trans (kept.trans only.balanced)

/-- Every check of the stack that the start makes is passed: whichever way
`gSimStart` went, its table was taken whole or nothing was taken. -/
theorem StartDone.balance (h : StartDone E s t) (typed : t.Meets (WellTyped E.toCLib)) :
    t.balanced = s.balanced := by
  rcases h with ⟨u, prepared, _, rfl⟩ |
    ⟨u, v, prepared, ⟨_, _, _, _, rfl⟩, stack, heap, heap₁, w, _, _, started, rfl⟩
  · exact prepared.balanced
  · obtain ⟨kept, level⟩ := started.balance E typed
    exact (balanced_of_height level).trans (kept.trans prepared.balanced)

end Balance

/-! ### Sessions -/

/-- The calls of a session are among those a host may make. -/
theorem Phase.session_next {c : HostCall} {before after : Phase}
    (move : before.session c = some after) : before.next c = some after := by
  obtain ⟨write, entry⟩ := c
  cases before <;> cases entry <;> simp_all [Phase.session, Phase.next]

/-- A session starts, takes a step, or stops after a step. -/
theorem Phase.session_cases {c : HostCall} {before after : Phase}
    (move : before.session c = some after) :
    (c.entry = .cSimStart ∧ before = .idle) ∨ (c.entry = .cCalculateEx ∧ before ≠ .idle) ∨
      (c.entry = .cSimStop ∧ before = .running) := by
  obtain ⟨write, entry⟩ := c
  cases before <;> cases entry <;> simp [Phase.session] at move ⊢

/-- What holds between the calls of a session that keeps the discipline. -/
structure Disciplined (phase : Phase) (s : Dll σ) : Prop where
  inv : phase.Inv s
  fit : s.CountsFit
  balanced : s.balanced = true

/-- What the host writes has no part in it. -/
theorem Disciplined.host {phase : Phase} {s : Dll σ} (h : Disciplined phase s) (host : Host) :
    Disciplined phase { s with host := host } :=
  ⟨h.inv.host host, h.fit.of_counts rfl rfl, h.balanced⟩

section Calls

variable {s : Dll σ} {before after : Phase}

/-- A call of `CCalculateEx` passes its checks, whether it returns or the script
stops it. With a pending start the checks of the start come first, and what it
read is well typed as well. -/
theorem Disciplined.calculate (h : Disciplined before s) (busy : before ≠ .idle) :
    EnsuresIf (Dll.Meets (WellTyped E.toCLib)) (cCalculateEx E) s
      (fun _ t => SameCounts s t ∧ t.balanced = true)
      (fun e t => e.Raised ∧ t.balanced = true) := by
  have reads : ∀ source, Reads E.toCLib (WellTyped E.toCLib) source :=
    WellTyped.reads E.toCLib
  by_cases pending : s.gCSimStartOverride = 0
  · have live := (h.inv.ready busy).2 pending
    refine (cCalculateEx_later E (reads _) h.fit pending live).keep.mono ?_ ?_
    · exact fun _ t ⟨step, typed⟩ =>
        ⟨step.counts E, (step.balance E typed).trans h.balanced⟩
    · exact fun e t ⟨stop, _⟩ => ⟨stop.1, stop.2.trans h.balanced⟩
  · have closed := (h.inv.ready busy).1 pending
    refine (cCalculateEx_first E (reads _) (reads _) h.fit pending closed).keep.mono ?_ ?_
    · rintro _ t ⟨first, typed⟩
      refine ⟨first.counts E, ?_⟩
      obtain ⟨u, start, typedStart, step⟩ := first
      exact (step.balance E typed).trans ((start.balance E typedStart).trans h.balanced)
    · rintro e t ⟨⟨raised, u, same | ⟨start, typedStart⟩, kept⟩, _⟩
      · exact ⟨raised, by rw [kept, same, h.balanced]⟩
      · exact ⟨raised, kept.trans ((start.balance E typedStart).trans h.balanced)⟩

/-- One call of a session. `CSimStart` checks nothing, `CSimStop` leaves the
checks as they were, and the counts are the same throughout. -/
theorem HostCall.disciplined {c : HostCall} (move : before.session c = some after)
    (h : Disciplined before s) :
    EnsuresIf (Dll.Meets (WellTyped E.toCLib)) (c.perform E) s
      (fun _ t => Disciplined after t) (fun e t => e.Raised ∧ t.balanced = true) := by
  have kept : EnsuresIf (Dll.Meets (WellTyped E.toCLib)) (c.perform E) s
      (fun _ t => SameCounts s t ∧ t.balanced = true)
      (fun e t => e.Raised ∧ t.balanced = true) := by
    have h' := h.host (c.write s.host)
    refine HostCall.ensures E ?_
    rcases Phase.session_cases move with ⟨start, _⟩ | ⟨run, busy⟩ | ⟨stop, rfl⟩
    · rw [start, Entry.perform_cSimStart]
      exact Ensures.conditional (.bind (.modify ⟨⟨rfl, rfl⟩, h.balanced⟩) fun _ _ h => .pure h)
    · rw [run, Entry.perform_cCalculateEx]
      exact (h'.calculate E busy).bind (fun _ => .pure (fun _ => id) _) fun _ _ done =>
        .pure fun _ => done
    · rw [stop, Entry.perform_cSimStop]
      refine ((cSimStop_steps E (WellTyped.reads _ _) h'.fit h'.inv.2).mono
        (fun _ _ done => done) fun _ _ stop => ⟨stop.1, stop.2.trans h.balanced⟩).bind
          (fun _ => .pure (fun _ => id) _) fun _ t done => .pure fun _ => ?_
      exact ⟨(done.kept E).1, (done.kept E).2.trans h.balanced⟩
  have inv := HostCall.perform_inv E (Phase.session_next move) h.inv
  refine (Ensures.and kept inv).mono (fun _ t ⟨kept, inv⟩ p => ?_) fun _ _ ⟨stop, _⟩ => stop
  obtain ⟨counts, balanced⟩ := kept p
  exact ⟨inv, h.fit.of_counts counts.1 counts.2, balanced⟩

end Calls

/-- Every check of the stack passes through every run of sessions that starts
between two sessions, as long as the tables read are well typed; an error of the
script may stop the run, and the checks have passed until then. By induction on
the run, with `Disciplined` between the calls. -/
theorem stack_discipline {s : Dll σ} (idle : Reached E .idle s) (fit : s.CountsFit)
    (calls : List HostCall) (last : Phase)
    (sessions : follow Phase.session .idle calls = some last) :
    EnsuresIf (Dll.Meets (WellTyped E.toCLib)) (runCalls E calls) s.recordAnew
      (fun _ t => t.balanced = true) (fun e t => e.Raised ∧ t.balanced = true) := by
  have start : Disciplined .idle s.recordAnew := ⟨idle.inv, fit.of_counts rfl rfl, rfl⟩
  have run : EnsuresIf (Dll.Meets (WellTyped E.toCLib)) (runCalls E calls) s.recordAnew
      (fun _ t => Disciplined last t) (fun e t => e.Raised ∧ t.balanced = true) :=
    EnsuresIf.runAll (HostCall.reflects E) (fun _ _ _ _ move h => HostCall.disciplined E move h)
      sessions start
  exact run.mono (fun _ _ h => h.balanced) fun _ _ h => h

/-- A script whose functions give a table with this one element. -/
def oneElementScript (start result : TValue) : Env Unit :=
  sampleEnv [("gNumInputs", .number (.ofNat 1)), ("gNumOutputs", .number (.ofNat 1)),
    ("gSimStart", .function 1), ("gCalculate", .function 2), ("gSimStop", .function 3)]
    fun f _ h => ([.table h.bound],
      h.alloc (arrayTable (fun _ => if f = 1 then start else result) 1))

def oneSession : List HostCall := quietCalls [.cSimStart, .cCalculateEx, .cCalculateEx, .cSimStop]

def askCounts : List HostCall := quietCalls [.cNumInputsEx, .cNumOutputsEx]

/-- A session whose tables hold numbers returns with every check passed. -/
theorem stack_discipline_oneSession :
    ∃ s rs t, Reached (oneElementScript (.number (.fin 0)) (.number (.fin 3))) .idle s ∧
      runCalls (oneElementScript (.number (.fin 0)) (.number (.fin 3))) oneSession s.recordAnew =
        .ok rs t ∧ t.balanced = true := by
  have sample : Ensures
      (runCalls (oneElementScript (.number (.fin 0)) (.number (.fin 3))) askCounts)
      (Dll.init sampleHost) (fun _ s => s.CountsFit ∧
        Ensures (runCalls (oneElementScript (.number (.fin 0)) (.number (.fin 3))) oneSession)
          s.recordAnew (fun _ t => t.Meets (WellTyped
            (oneElementScript (.number (.fin 0)) (.number (.fin 3))).toCLib)) fun _ _ => False)
      (fun _ _ => False) := by
    decide +kernel
  obtain ⟨rs, s, run, fit, session⟩ := sample.returns
  obtain ⟨rs', t, run', typed⟩ := session.returns
  have idle : Reached (oneElementScript (.number (.fin 0)) (.number (.fin 3))) .idle s :=
    ⟨sampleHost, askCounts, rs, by decide, run⟩
  exact ⟨s, rs', t, idle, run',
    (stack_discipline _ idle fit oneSession .idle (by decide)).ok run' typed⟩

/-- One boolean in the table of a step breaks the discipline: the element is
popped twice, and the stack ends below where the step found it. -/
theorem badElement_unbalances :
    follow Phase.next .idle (askCounts ++ oneSession) = some .idle ∧
      Ensures (runCalls (oneElementScript (.number (.fin 0)) (.boolean true))
          (askCounts ++ oneSession)) (Dll.init sampleHost)
        (fun _ t => t.gNumInputs = 2 ∧ t.gNumOutputs = 2 ∧ t.balanced = false)
        (fun _ _ => False) := by
  decide +kernel

end ProfiLua
