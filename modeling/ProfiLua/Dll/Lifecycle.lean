import ProfiLua.Dll.Exchange
import ProfiLua.Dll.Latch

/-!
The life of a Lua state, as the script sees it.

Every Lua state has an epoch of its own, so the record tells which state an
activation ran in. A session that is run before it is stopped opens one state,
runs the script in it once, starts it once, calls `gCalculate` once for each
step, stops it once and closes it; the queries before and after it run in other
states (`session_lifecycle`).
-/

namespace ProfiLua

open Program

variable {σ : Type} (E : Env σ)

/-! ### What ran in which state -/

/-- What has run so far, each with the epoch of its Lua state. -/
def Dll.ran (s : Dll σ) : List (Nat × Activation) := s.activations.map fun a => (a.1, a.2.1)

/-- What has run in one Lua state. -/
def Dll.ranIn (s : Dll σ) (id : Nat) : List Activation :=
  (s.ran.filter fun a => a.1 = id).map Prod.snd

/-- A function of the simulation. -/
def Activation.OfSimulation (a : Activation) : Prop :=
  a = .hook .gSimStart ∨ a = .hook .gCalculate ∨ a = .hook .gSimStop

/-- Noting an activation adds it to the list, with the epoch it ran in. -/
theorem Dll.ran_activated (s : Dll σ) (what : Activation) (argument : Option Table) :
    (s.note [.activation what argument]).ran = s.ran ++ [(s.epoch, what)] := by
  unfold Dll.ran
  rw [Dll.activations_note, List.map_append]
  rfl

theorem Dll.ran_inert (s : Dll σ) {e : Event} (inert : e.activated = none) :
    (s.note [e]).ran = s.ran := by
  unfold Dll.ran
  rw [Dll.activations_note, List.filterMap_cons_none inert]
  simp

/-- Whatever the list of activations gained came from events that were allowed,
and each carries an epoch between the one at the start and the one at the end.
-/
theorem Grows.ran {Allowed : Event → Prop} {s t : Dll σ} (h : Grows Allowed s t) :
    ∃ gained, t.ran = s.ran ++ gained ∧ ∀ a ∈ gained, s.epoch ≤ a.1 ∧ a.1 ≤ t.epoch ∧
      ∃ argument, Allowed (.activation a.2 argument) := by
  obtain ⟨_, events, ht, allowed⟩ := h
  refine ⟨(events.filterMap fun e => e.2.activated.map (Prod.mk e.1)).map fun a => (a.1, a.2.1),
    ?_, ?_⟩
  · unfold Dll.ran Dll.activations
    rw [ht, List.filterMap_append, List.map_append]
  · intro a mem
    obtain ⟨⟨n, what, argument⟩, inside, rfl⟩ := List.mem_map.mp mem
    obtain ⟨⟨m, e⟩, noted, same⟩ := List.mem_filterMap.mp inside
    obtain ⟨ok, low, high⟩ := allowed _ noted
    cases e with
    | activation what' argument' =>
        obtain ⟨rfl, rfl, rfl⟩ : m = n ∧ what' = what ∧ argument' = argument := by
          simpa [Event.activated] using same
        exact ⟨low, high, argument', ok⟩
    | _ => simp [Event.activated] at same

/-- A part that sets nothing running. -/
theorem Grows.ran_same {Allowed : Event → Prop} {s t : Dll σ} (h : Grows Allowed s t)
    (inert : ∀ e, Allowed e → e.activated = none) : t.ran = s.ran := by
  unfold Dll.ran
  rw [h.activations inert]

/-- Before the session is opened no function of the simulation runs. -/
theorem Event.OfPreparation.notSimulation {what : Activation} {argument : Option Table}
    (h : Event.OfPreparation (.activation what argument)) : ¬what.OfSimulation := by
  obtain query | console := h
  · rintro (rfl | rfl | rfl) <;> exact query
  · exact console.elim

/-- Every event so far has an epoch that is over or current, so the next state
that is opened is a new one. -/
theorem Reached.epochs {phase : Phase} {s : Dll σ} (h : Reached E phase s) :
    ∀ e ∈ s.trace, e.1 ≤ s.epoch := by
  obtain ⟨host, calls, rs, _, run⟩ := h
  have grows : Grows (fun _ => True) (Dll.init host) s := by
    refine runAll_preserves (fun t c r u before outcome => ?_) run (.refl _ _)
    exact before.trans ((HostCall.within E Grows.entryFrame c t trivial).ok outcome).2
  obtain ⟨_, gained, ht, allowed⟩ := grows
  intro e mem
  rw [ht] at mem
  exact (allowed e (by simpa [Dll.init] using mem)).2.2

/-! ### A session -/

/-- The script has every function of the simulation, and their results can be
stored. -/
def Complete (C : CLib) : ReplyCondition
  | .result .gSimStart, outputs, marked, answer => answer.FitsStart C outputs marked
  | .result .gCalculate, outputs, marked, answer => answer.Fits C outputs marked
  | .result .gSimStop, _, _, answer => answer ≠ .missing
  | _, _, _, _ => True

/-- What a session of `k` steps runs before it is stopped. -/
def sessionRuns (k : Nat) : List Activation :=
  .chunk .session :: .hook .gSimStart :: List.replicate k (.hook .gCalculate)

theorem sessionRuns_succ (k : Nat) :
    sessionRuns (k + 1) = sessionRuns k ++ [.hook .gCalculate] := by
  simp [sessionRuns, List.replicate_succ']

/-- Since `s` the DLL ran functions of other states, none of the simulation, and
then `runs` in the state `id`, which is new. -/
structure Ran (s : Dll σ) (id : Nat) (runs : List Activation) (t : Dll σ) : Prop where
  fresh : s.epoch < id
  opened : (id, Event.luaOpen) ∈ t.trace
  ran : ∃ asked, t.ran = s.ran ++ asked ++ runs.map (Prod.mk id) ∧
    ∀ a ∈ asked, a.1 < id ∧ ¬a.2.OfSimulation

/-- One more activation in the same state, which comes last in the list. -/
theorem Ran.next {s t u : Dll σ} {id : Nat} {runs : List Activation} {what : Activation}
    (h : Ran s id runs t) (grows : Grows (fun _ => True) t u)
    (ran : u.ran = t.ran ++ [(id, what)]) : Ran s id (runs ++ [what]) u := by
  obtain ⟨asked, before, others⟩ := h.ran
  refine ⟨h.fresh, grows.mem h.opened, asked, ?_, others⟩
  rw [ran, before, List.map_append, List.append_assoc _ _ [(id, what)]]
  rfl

section Start

variable {s : Dll σ}

/-- With a complete reply, the start clears the error flag and has run
`gSimStart` once, in the epoch of the session. A missing function, or a reply
that is no table, is not complete. -/
theorem Started.ran {t : Dll σ} {stack : List TValue} {heap : Heap σ}
    (h : Started E s stack heap t) (meets : t.Meets (Complete E.toCLib)) :
    t.gERROR = 0 ∧ t.epoch = s.epoch ∧ (∀ e ∈ s.trace, e ∈ t.trace) ∧
      t.ran = s.ran ++ [(s.epoch, .hook .gSimStart)] := by
  cases h with
  | missing => exact (Dll.Meets.noted (s := s) meets).elim
  | other _ _ other =>
      exact absurd (Dll.Meets.noted (s := s.called .gSimStart dummyText) meets)
        (not_fitsStart_of_other other)
  | stored =>
      refine ⟨rfl, rfl, fun e mem => ?_, ?_⟩
      · exact List.mem_append_left _ (List.mem_append_left _ mem)
      · exact (Dll.ran_inert (s.called .gSimStart dummyText) rfl).trans (Dll.ran_activated s _ _)

/-- The deferred start of a complete script with memory for it. What it asked
the script for names ran in earlier states; then the session's own state is
opened, the chunk run in it and `gSimStart` called. -/
theorem StartDone.ran {t : Dll σ} (h : StartDone E s t) (meets : t.Meets (Complete E.toCLib))
    (memory : ∀ n, (E.luaOpen n).isSome)
    (loads : ∀ file heap, (E.load file heap).1.type = .function) :
    t.gERROR = 0 ∧ Ran s t.epoch (sessionRuns 0) t := by
  rcases h with ⟨u, _, noMemory, _⟩ |
    ⟨u, v, prepared, ⟨_, _, chunk, noted, rfl⟩, stack, heap, heap₁, w, _, _, started, rfl⟩
  · have open_ := memory u.epoch
    rw [noMemory] at open_
    cases open_
  · obtain rfl | ⟨_, heap₀, notLoaded⟩ := noted
    swap
    · exact absurd (loads _ heap₀) notLoaded
    obtain ⟨asked, queried, others⟩ := prepared.grows.ran
    have atOpen := Dll.ran_inert { u with epoch := u.epoch + 1 } (e := .luaOpen) rfl
    have atChunk := Dll.ran_activated ({ u with epoch := u.epoch + 1 }.note [.luaOpen])
      (.chunk .session) none
    obtain ⟨fine, epoch, kept, atStart⟩ := started.ran E meets
    have below : s.epoch ≤ u.epoch := prepared.grows.epoch
    have here : w.epoch = u.epoch + 1 := epoch
    refine ⟨fine, ?_, ?_, asked, ?_, fun a mem => ?_⟩
    · show s.epoch < w.epoch
      omega
    · have opening : (w.epoch, Event.luaOpen) ∈ (({ u with epoch := u.epoch + 1 }.note
          [.luaOpen]).note [.activation (.chunk .session) none]).trace := by
        rw [here]
        simp [Dll.note]
      exact kept _ opening
    · refine atStart.trans ?_
      show Dll.ran (Dll.note _ _) ++ _ = _
      have same : Dll.ran { u with epoch := u.epoch + 1 } = u.ran := rfl
      rw [atChunk, atOpen, same, queried, List.append_assoc _ [_] [_]]
      simp only [here, sessionRuns]
      rfl
    · obtain ⟨_, high, argument, allowed⟩ := others a mem
      refine ⟨?_, allowed.notSimulation⟩
      show a.1 < w.epoch
      omega

/-- Where every reply is complete, the results of `gCalculate` can be stored. -/
theorem Complete.resultFits {C : CLib} (h : s.Meets (Complete C)) : s.Meets (ResultFits C) := by
  refine h.mono fun source outputs marked answer complete => ?_
  cases source with
  | gPUser => trivial
  | result hook =>
      cases hook with
      | gCalculate => exact complete
      | _ => trivial

/-- A step of a complete script runs `gCalculate` once, in the state that was
open before it, and leaves that state open and without an error. -/
theorem StepDone.ran {t : Dll σ} (h : StepDone E s t) (fine : s.gERROR = 0)
    (meets : t.Meets (Complete E.toCLib)) :
    t.gERROR = 0 ∧ t.L.isSome ∧ t.epoch = s.epoch ∧
      t.ran = s.ran ++ [(s.epoch, .hook .gCalculate)] := by
  obtain ⟨stack, heap, heap₁, heap', f, r, argument, values, _, live, _, _, activations, _, _,
    same⟩ :=
    h.exchange E fine (Complete.resultFits meets)
  refine ⟨same.gERROR.trans fine, by rw [live]; rfl, same.epoch, ?_⟩
  unfold Dll.ran
  rw [activations, List.map_append]
  rfl

end Start

/-! ### The stop -/

section Stop

variable {s : Dll σ}

/-- The parts that note replies only and stay in their Lua state. -/
theorem sameEpoch_frame :
    OutputFrame Event.OfReply fun s t : Dll σ => Grows Event.OfReply s t ∧ t.epoch = s.epoch where
  refl := fun s => ⟨.refl _ s, rfl⟩
  trans := fun _ _ _ h k => ⟨h.1.trans k.1, k.2.trans h.2⟩
  setL := fun _ _ => ⟨.of_same rfl rfl, rfl⟩
  balanced := fun _ _ => ⟨.of_same rfl rfl, rfl⟩
  note := fun s _ allowed => ⟨.of_note s allowed, rfl⟩
  gERROR := fun _ _ => ⟨.of_same rfl rfl, rfl⟩
  host := fun _ _ => ⟨.of_same rfl rfl, rfl⟩

/-- Reading `gPUser` back runs nothing, whatever it holds, and stays in the same
Lua state; if it can be read, only the script stops it. -/
theorem restorePUser_replies {l : LuaState σ} (live : s.L = some l) :
    Ensures (restorePUser E) s
      (fun _ t => (∃ l', t.L = some l') ∧ Grows Event.OfReply s t ∧ t.epoch = s.epoch)
      (fun e t => e.Raised ∨ ¬t.Meets (Readable E.toCLib)) := by
  have within : Within .opened _ (restorePUser E) :=
    restorePUser_within E sameEpoch_frame.writing (fun _ h => h) (by simp)
  obtain ⟨stack, heap⟩ := l
  have read := restorePUser_outcome E (s := s) (Readable.reads E.toCLib .gPUser) stack heap
  rw [Dll.withL_self live] at read
  have opened : s.L.isSome := by rw [live]; rfl
  refine (Ensures.and (within s opened) read).mono (fun _ t ⟨h, _⟩ => ?_) fun e t ⟨_, raised⟩ => ?_
  · exact ⟨Option.isSome_iff_exists.mp h.1, h.2⟩
  · by_cases readable : t.Meets (Readable E.toCLib)
    · exact .inl (raised readable).1
    · exact .inr readable

/-- A reply is noted after the function that gave it has run, and sets nothing
running itself. -/
theorem Event.OfReply.inert {e : Event} (h : e.OfReply) : e.activated = none := by
  cases e with
  | activation what argument => exact h.elim
  | _ => rfl

/-- The stop of a complete script: it runs `gSimStop` in the state of the
session and closes that state. An error of the script, or a `gPUser` that cannot
be read back, ends it early. -/
theorem cSimStop_ran (simulating : Simulating s) :
    EnsuresIf (Dll.Meets (Complete E.toCLib)) (cSimStop E) s
      (fun _ t => t.L = none ∧ (s.epoch, Event.luaClose) ∈ t.trace ∧ s.epoch < t.epoch ∧
        t.ran = s.ran ++ [(s.epoch, .hook .gSimStop)])
      (fun e t => e.Raised ∨ ¬t.Meets (Readable E.toCLib)) := by
  obtain ⟨⟨stack, heap⟩, live⟩ := Option.isSome_iff_exists.mp simulating.live
  have stopping : EnsuresIf (Dll.Meets (Complete E.toCLib)) (stopScript E) s
      (fun _ t => (∃ l', t.L = some l') ∧ t.epoch = s.epoch ∧
        t.ran = s.ran ++ [(s.epoch, .hook .gSimStop)])
      (fun e t => e.Raised ∨ ¬t.Meets (Readable E.toCLib)) := by
    refine .step (run_get s) (.ite (fun _ => ?_) fun no => absurd simulating.fine no)
    have call := callStop_outcome E simulating.fit stack heap
    rw [Dll.withL_self live] at call
    refine ((call.mono (fun _ _ h => h) fun _ _ h => .inl h.1).conditional.keep.mono
      (fun _ _ h => h) fun _ _ h => h.1).bind (fun _ => ?_) ?_
    -- the condition is about the record at the end, and what follows only adds to the record
    · exact reflects_of_grows (restorePUser_within E growing (fun _ _ => trivial) (by simp))
    rintro _ t ⟨called, meets⟩
    cases called with
    | missing => exact absurd rfl (Dll.Meets.noted (s := s) meets)
    | @called values heap' answered =>
        refine Ensures.conditional ((restorePUser_replies E rfl).mono ?_ fun _ _ h => h)
        rintro _ t ⟨here, grows, epoch⟩
        refine ⟨here, epoch, ?_⟩
        exact (grows.ran_same fun _ => Event.OfReply.inert).trans
          (Dll.ran_activated s (.hook .gSimStop) (some (inputTable s dummyText)))
  refine stopping.bind (fun _ => ?_) fun _ u ⟨⟨l', here⟩, epoch, ran⟩ => ?_
  · exact reflects_of_grows (closing_within Grows.entryFrame.toSessionFrame)
  · refine ((closing_outcome here).mono (fun _ t only => ?_) fun _ _ h => h).conditional
    -- the close is noted in the old epoch, and the next one begins with it
    refine ⟨only.L, only.trace.mem ?_, ?_, ?_⟩
    · rw [← epoch]
      exact List.mem_append_right _ (by simp)
    · rw [only.epoch, ← epoch]
      exact Nat.lt_succ_self _
    · refine (only.trace.ran_same fun _ => Event.OfConsole.inert).trans ?_
      exact (Dll.ran_inert u (e := .luaClose) rfl).trans ran

end Stop

/-! ### Whole sessions -/

/-- What holds during a session that began in `s`. -/
def Progress.Inv (s : Dll σ) : Progress → Dll σ → Prop
  | .ready, t => t.L = none ∧ t.CountsFit ∧ t.epoch = s.epoch ∧ t.trace = s.trace
  | .pending, t => t.L = none ∧ t.CountsFit ∧ t.epoch = s.epoch ∧ t.trace = s.trace ∧
      t.gCSimStartOverride ≠ 0
  | .after k, t => Simulating t ∧ Ran s t.epoch (sessionRuns k) t
  | .ended k, t => t.L = none ∧ ∃ id, id < t.epoch ∧ (id, Event.luaClose) ∈ t.trace ∧
      Ran s id (sessionRuns k ++ [.hook .gSimStop]) t

section Session

variable {s : Dll σ}

/-- A simulation goes on whatever the host writes to its arrays. -/
theorem Simulating.host {t : Dll σ} (h : Simulating t) (host : Host) :
    Simulating { t with host := host } :=
  ⟨h.fine, h.settled, h.live, h.fit.of_counts rfl rfl⟩

/-- What the host writes to its arrays between two calls changes nothing of the
progress of a session. -/
theorem Progress.Inv.host {progress : Progress} {t : Dll σ} (h : progress.Inv s t) (host : Host) :
    progress.Inv s { t with host := host } := by
  cases progress with
  | ready => exact ⟨h.1, h.2.1.of_counts rfl rfl, h.2.2⟩
  | pending => exact ⟨h.1, h.2.1.of_counts rfl rfl, h.2.2⟩
  | after k => exact ⟨h.1.host host, ⟨h.2.fresh, h.2.opened, h.2.ran⟩⟩
  | ended k =>
      obtain ⟨closed, id, past, close, ran⟩ := h
      exact ⟨closed, id, past, close, ⟨ran.fresh, ran.opened, ran.ran⟩⟩

/-- A complete reply of `gSimStart` and of `gCalculate` can be read back. -/
theorem Complete.reads (C : CLib) :
    Reads C (Complete C) (.result .gSimStart) ∧ Reads C (Complete C) (.result .gCalculate) :=
  ⟨fun _ _ _ fits _ => fits, fun _ _ _ fits _ => fits⟩

variable {t : Dll σ}

/-- The first call of `CCalculateEx` in the session. It does the deferred start
and then a step, so one `gCalculate` has run after it. -/
theorem Progress.Inv.first (memory : ∀ n, (E.luaOpen n).isSome)
    (loads : ∀ file heap, (E.load file heap).1.type = .function)
    (h : Progress.pending.Inv s t) :
    EnsuresIf (Dll.Meets (Complete E.toCLib)) (cCalculateEx E) t
      (fun _ u => (Progress.after 1).Inv s u) (fun e _ => e.Raised) := by
  obtain ⟨closed, fit, epoch, trace, pending⟩ := h
  obtain ⟨readsStart, reads⟩ := Complete.reads E.toCLib
  refine (cCalculateEx_first E readsStart reads fit pending closed).keep.mono ?_
    fun _ _ ⟨stop, _⟩ => stop.1
  rintro _ v ⟨⟨u, start, meetsStart, step⟩, meets⟩
  obtain ⟨fine, ran⟩ := start.ran E meetsStart memory loads
  obtain ⟨fine', live, epoch', ran'⟩ := step.ran E fine meets
  have counts : SameCounts t v :=
    ⟨(step.counts E).1.trans (start.counts E).1, (step.counts E).2.trans (start.counts E).2⟩
  have settled : v.gCSimStartOverride = 0 := step.settled E
  refine ⟨⟨fine', settled, live, fit.of_counts counts.1 counts.2⟩, ?_⟩
  have here : v.epoch = u.epoch := epoch'
  rw [here]
  have began : Ran s u.epoch (sessionRuns 0) u.settled := by
    refine ⟨epoch ▸ ran.fresh, ran.opened, ?_⟩
    have same : t.ran = s.ran := by
      unfold Dll.ran Dll.activations
      rw [trace]
    rw [← same]
    exact ran.ran
  exact began.next (step.grows E) ran'

/-- A later call of `CCalculateEx`, which runs `gCalculate` once more in the
same state. -/
theorem Progress.Inv.step {k : Nat} (h : (Progress.after k).Inv s t) :
    EnsuresIf (Dll.Meets (Complete E.toCLib)) (cCalculateEx E) t
      (fun _ u => (Progress.after (k + 1)).Inv s u) (fun e _ => e.Raised) := by
  obtain ⟨simulating, ran⟩ := h
  refine (cCalculateEx_later E (Complete.reads E.toCLib).2 simulating.fit simulating.settled
    fun _ => simulating.live).keep.mono ?_ fun _ _ ⟨stop, _⟩ => stop.1
  rintro _ u ⟨step, meets⟩
  obtain ⟨fine, live, epoch, ran'⟩ := step.ran E simulating.fine meets
  have counts := step.counts E
  refine ⟨⟨fine, (step.settled E).trans simulating.settled, live,
    simulating.fit.of_counts counts.1 counts.2⟩, ?_⟩
  rw [epoch, sessionRuns_succ]
  exact ran.next (step.grows E) ran'

/-- The call of `CSimStop`, which ends the session: the state is closed, and no
later one has its epoch. -/
theorem Progress.Inv.stop {k : Nat} (h : (Progress.after k).Inv s t) :
    EnsuresIf (Dll.Meets (Complete E.toCLib)) (cSimStop E) t
      (fun _ u => (Progress.ended k).Inv s u)
      (fun e u => e.Raised ∨ ¬u.Meets (Readable E.toCLib)) := by
  obtain ⟨simulating, ran⟩ := h
  have grows : Ensures (cSimStop E) t (fun _ u => Grows (fun _ => True) t u) fun _ _ => True :=
    (cSimStop_within E Grows.entryFrame.toSessionFrame t trivial).mono (fun _ _ h => h.2)
      fun _ _ _ => trivial
  refine (Ensures.and (cSimStop_ran E simulating) grows).mono
    (fun _ u ⟨stopped, grows⟩ meets => ?_) fun _ _ ⟨stop, _⟩ => stop
  obtain ⟨closed, close, past, ran'⟩ := stopped meets
  exact ⟨closed, t.epoch, past, close, ran.next grows ran'⟩

/-- One call of the session leads from one stage to the next. The four cases are
the four moves there are. -/
theorem HostCall.progress (memory : ∀ n, (E.luaOpen n).isSome)
    (loads : ∀ file heap, (E.load file heap).1.type = .function) {before after : Progress}
    {c : HostCall} (move : before.next c = some after) (h : before.Inv s t) :
    EnsuresIf (Dll.Meets (Complete E.toCLib)) (c.perform E) t (fun _ u => after.Inv s u)
      (fun e u => e.Raised ∨ ¬u.Meets (Readable E.toCLib)) := by
  have h' := h.host (c.write t.host)
  refine HostCall.ensures E ?_
  have finish : ∀ {x : DllM σ PUnit} {v : Dll σ} {A : Stop → Dll σ → Prop},
      EnsuresIf (Dll.Meets (Complete E.toCLib)) x v (fun _ u => after.Inv s u) A →
      EnsuresIf (Dll.Meets (Complete E.toCLib)) (x >>= fun _ => Pure.pure Returned.nothing) v
        (fun _ u => after.Inv s u) A := fun run =>
    run.bind (fun _ => .pure (fun _ => id) _) fun _ _ done => .pure fun _ => done
  obtain ⟨write, entry⟩ := c
  -- the start, the first step, a later step and the stop
  cases before <;> cases entry <;> cases move
  · refine Ensures.conditional (.bind (.modify ?_) fun _ _ h => .pure h)
    exact ⟨h'.1, h'.2.1.of_counts rfl rfl, h'.2.2.1, h'.2.2.2, by simp⟩
  · exact finish ((h'.first E memory loads).mono (fun _ _ h => h) fun _ _ stop => .inl stop)
  · exact finish ((h'.step E).mono (fun _ _ h => h) fun _ _ stop => .inl stop)
  · exact finish (h'.stop E)

end Session

/-- A session of `k` steps between `s` and `t`, as its Lua state sees it. -/
structure Lived (s t : Dll σ) (id k : Nat) : Prop where
  /-- No earlier event is of this state. -/
  fresh : s.epoch < id ∧ s.ranIn id = []
  opened : (id, Event.luaOpen) ∈ t.trace
  sequence : t.ranIn id =
    .chunk .session :: .hook .gSimStart :: List.replicate k (.hook .gCalculate) ++ [.hook .gSimStop]
  /-- The functions of the simulation ran in no other state. -/
  only : ∃ gained, t.ran = s.ran ++ gained ∧ ∀ a ∈ gained, a.2.OfSimulation → a.1 = id
  closed : (id, Event.luaClose) ∈ t.trace ∧ id < t.epoch ∧ t.L = none

/-- What ran so far ran in epochs that are over or current. -/
theorem Dll.ran_epochs {s : Dll σ} (old : ∀ e ∈ s.trace, e.1 ≤ s.epoch) :
    ∀ a ∈ s.ran, a.1 ≤ s.epoch := by
  intro a mem
  obtain ⟨⟨n, what, argument⟩, inside, rfl⟩ := List.mem_map.mp mem
  obtain ⟨e, noted, same⟩ := List.mem_filterMap.mp inside
  obtain ⟨_, _, pair⟩ := Option.map_eq_some_iff.mp same
  cases pair
  exact old e noted

/-- Nothing runs in a state that is not there. -/
theorem filter_epoch_nil {l : List (Nat × Activation)} {id : Nat} (other : ∀ a ∈ l, a.1 ≠ id) :
    (l.filter fun a => a.1 = id) = [] :=
  List.filter_eq_nil_iff.mpr fun a mem => by simpa using other a mem

/-- Of what ran in the state with this number, nothing ran before it was opened,
for its epoch was still to come. What ran since is the list `runs`, as the
queries in between ran in earlier epochs. -/
theorem Ran.ranIn {s t : Dll σ} {id : Nat} {runs : List Activation} (h : Ran s id runs t)
    (old : ∀ a ∈ s.ran, a.1 ≤ s.epoch) : s.ranIn id = [] ∧ t.ranIn id = runs := by
  obtain ⟨asked, ran, others⟩ := h.ran
  have fresh := h.fresh
  have before : (s.ran.filter fun a => a.1 = id) = [] :=
    filter_epoch_nil fun a mem => by have := old a mem; omega
  have queries : (asked.filter fun a => a.1 = id) = [] :=
    filter_epoch_nil fun a mem => by have := (others a mem).1; omega
  have inside : ((runs.map (Prod.mk id)).filter fun a => a.1 = id) = runs.map (Prod.mk id) := by
    refine List.filter_eq_self.mpr fun a mem => ?_
    obtain ⟨what, _, rfl⟩ := List.mem_map.mp mem
    simp
  refine ⟨by rw [Dll.ranIn, before]; rfl, ?_⟩
  rw [Dll.ranIn, ran, List.filter_append, List.filter_append, before, queries, inside,
    List.nil_append, List.nil_append, List.map_map]
  exact List.map_id runs

/-- Later calls run nothing in a state that is over, for the epoch never goes
back. -/
theorem ranIn_later {t u : Dll σ} {calls : List HostCall} {rs : List Returned} {id : Nat}
    (past : id < t.epoch) (run : runCalls E calls t = .ok rs u) : u.ranIn id = t.ranIn id := by
  have grows : Grows (fun _ => True) t u := by
    refine runAll_preserves (fun v c r w before outcome => ?_) run (.refl _ _)
    exact before.trans ((HostCall.within E Grows.entryFrame c v trivial).ok outcome).2
  obtain ⟨gained, ran, stamped⟩ := grows.ran
  have none : (gained.filter fun a => a.1 = id) = [] :=
    filter_epoch_nil fun a mem => by have := (stamped a mem).1; omega
  rw [Dll.ranIn, ran, List.filter_append, none, List.append_nil]
  rfl

/-- A session of a complete script, in memory and loaded, lives in one Lua state
of its own: opened for it, run from its chunk over `gSimStart`, `gCalculate` once
for each step and `gSimStop`, and closed with it. The states of the queries
before and after it are others. Only an error of the script, or a `gPUser` that
cannot be read back, stops a session. -/
theorem session_lifecycle (memory : ∀ n, (E.luaOpen n).isSome)
    (loads : ∀ file heap, (E.load file heap).1.type = .function) {s : Dll σ}
    (idle : Reached E .idle s) (fit : s.CountsFit) (calls : List HostCall) (k : Nat)
    (session : follow Progress.next .ready calls = some (.ended k)) :
    EnsuresIf (Dll.Meets (Complete E.toCLib)) (runCalls E calls) s
      (fun _ t => s.L = none ∧ ∃ id, Lived s t id k ∧
        ∀ later rs u, runCalls E later t = .ok rs u → u.ranIn id = t.ranIn id)
      (fun e t => e.Raised ∨ ¬t.Meets (Readable E.toCLib)) := by
  have start : Progress.ready.Inv s s := ⟨idle.inv, fit, rfl, rfl⟩
  have run : EnsuresIf (Dll.Meets (Complete E.toCLib)) (runCalls E calls) s
      (fun _ t => (Progress.ended k).Inv s t)
      (fun e t => e.Raised ∨ ¬t.Meets (Readable E.toCLib)) :=
    EnsuresIf.runAll (HostCall.reflects E)
      (fun _ _ _ _ move h => HostCall.progress E memory loads move h) session start
  refine run.mono (fun _ t ⟨closed, id, past, close, ran⟩ => ⟨idle.inv, id, ?_, ?_⟩) fun _ _ h => h
  · have old := Dll.ran_epochs (idle.epochs E)
    obtain ⟨asked, sequence, others⟩ := ran.ran
    refine ⟨⟨ran.fresh, (ran.ranIn old).1⟩, ran.opened, (ran.ranIn old).2, ?_, close, past, closed⟩
    refine ⟨asked ++ (sessionRuns k ++ [Activation.hook .gSimStop]).map (Prod.mk id), ?_,
      fun a mem sim => ?_⟩
    · rw [sequence, List.append_assoc]
    · obtain inside | inside := List.mem_append.mp mem
      · exact absurd sim (others a inside).2
      · obtain ⟨what, _, rfl⟩ := List.mem_map.mp inside
        rfl
  · exact fun later rs u run => ranIn_later E past run

/-- The sample script with names for its pins, asked for one between two sessions. -/
def namedScript : Env Unit :=
  sampleEnv [("gNumInputs", .number (.ofNat 1)), ("gNumOutputs", .number (.ofNat 1)),
    ("gInputName", .function 4), ("gOutputName", .function 4),
    ("gSimStart", .function 1), ("gCalculate", .function 2), ("gSimStop", .function 3)]
    fun _ args h => (args, h)

instance {C : CLib} : ∀ source outputs marked, DecidablePred (Complete C source outputs marked)
  | .result .gSimStart, outputs, marked, answer =>
      inferInstanceAs (Decidable (answer.FitsStart C outputs marked))
  | .result .gCalculate, outputs, marked, answer =>
      inferInstanceAs (Decidable (answer.Fits C outputs marked))
  | .result .gSimStop, _, _, .missing => .isFalse fun found => found rfl
  | .result .gSimStop, _, _, .value _ => .isTrue nofun
  | .result .gSimStop, _, _, .table .. => .isTrue nofun
  | .result .gInputName, _, _, _ => .isTrue trivial
  | .result .gOutputName, _, _, _ => .isTrue trivial
  | .gPUser, _, _, _ => .isTrue trivial

/-- After two counts and a name, a session of two steps lives in one state. The
queries before it had states of their own. -/
theorem session_lifecycle_namedScript :
    ∃ s rs t, Reached namedScript .idle s ∧
      runCalls namedScript (quietCalls [.cSimStart, .cCalculateEx, .cCalculateEx, .cSimStop]) s =
        .ok rs t ∧ ∃ id, Lived s t id 2 := by
  have sample : Ensures (runCalls namedScript
      (quietCalls [.cNumInputsEx, .cNumOutputsEx, .getInputName 1])) (Dll.init sampleHost)
      (fun _ s => s.CountsFit ∧ Ensures (runCalls namedScript
        (quietCalls [.cSimStart, .cCalculateEx, .cCalculateEx, .cSimStop])) s
        (fun _ t => t.Meets (Complete namedScript.toCLib)) fun _ _ => False)
      (fun _ _ => False) := by
    decide +kernel
  obtain ⟨rs, s, run, fit, session⟩ := sample.returns
  obtain ⟨rs', t, run', meets⟩ := session.returns
  have idle : Reached namedScript .idle s := ⟨sampleHost, _, rs, by decide, run⟩
  obtain ⟨_, id, lived, _⟩ := (session_lifecycle namedScript (fun _ => rfl) (fun _ _ => rfl) idle
    fit _ 2 (by decide)).ok run' meets
  exact ⟨s, rs', t, idle, run', id, lived⟩

end ProfiLua
