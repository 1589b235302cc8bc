import ProfiLua.Dll.Steps

/-!
The persistence of the parameters.

The start copies `PUser` into the table of the global `gPUser` and the stop copies
the first hundred entries of that table back. Whatever the script leaves there is
what `PUser` holds after the session, and a script that leaves the table alone
never changes `PUser` (`pUser_persists`).
-/

namespace ProfiLua

open Program

variable {σ : Type} (E : Env σ)

/-! ### What a start and a step keep -/

section Parts

variable {s t : Dll σ}

/-- Clearing the markers, the console and asking for the names leave the user
cells alone. -/
theorem Prepared.pUser (h : Prepared s t) : t.host.pUser = s.host.pUser := by
  rw [h.host]
  rfl

theorem ConsoleOnly.pUser (h : ConsoleOnly s t) : t.host.pUser = s.host.pUser := by
  rw [h.host]

/-- A start reads `PUser` and does not write to it, whether it opened the script
or found no memory for it. -/
theorem StartDone.pUser (h : StartDone E s t) : t.host.pUser = s.host.pUser := by
  rcases h with ⟨u, prepared, _, rfl⟩ |
    ⟨u, v, prepared, ⟨_, _, _, _, rfl⟩, stack, heap, heap₁, w, _, _, started, rfl⟩
  · exact prepared.pUser
  · have before := prepared.pUser
    cases started with
    | missing => exact before
    | other => exact before
    | stored _ _ _ stored =>
        rw [stored]
        exact (storedStart_pUser _ _ _ _ _ _).trans before

/-- A step does not write to `PUser`: it stores numbers in the outputs and texts
in the strings. -/
theorem StepDone.pUser (h : StepDone E s t) : t.host.pUser = s.host.pUser := by
  cases h with
  | reported only => exact only.pUser
  | exchanged only _ _ exchanged =>
      have before := only.pUser
      cases exchanged with
      | missing => exact before
      | other => exact before
      | stored => exact (storedResult_inputs _ _ _ _ _ _).2.trans before

/-- A start without an error passed the host's cells to the script as the global
`gPUser`, then called `gSimStart`, and left the heap as that function made it.
-/
theorem StartDone.assigned (h : StartDone E s t) (fine : t.gERROR = 0) :
    ∃ (h : Host) (heap heap₁ heap' : Heap σ) (stack : List TValue),
      h.pUser = s.host.pUser ∧
      Assigned E "gPUser" (.table heap.bound) (heap.alloc (userTable h)) heap₁ ∧
      Evolves E heap₁ heap' ∧ t.L = some ⟨stack, heap'⟩ := by
  rcases h with ⟨u, prepared, _, rfl⟩ |
    ⟨u, v, prepared, ⟨_, _, _, _, rfl⟩, stack, heap, heap₁, w, _, assigned, started, rfl⟩
  · exact absurd (prepared.gERROR.symm.trans fine) (by decide)
  · have before := prepared.pUser
    cases started with
    | missing notFound => exact ⟨u.host, heap, heap₁, _, _, before, assigned, notFound.evolves, rfl⟩
    | other answered => exact ⟨u.host, heap, heap₁, _, _, before, assigned, answered.evolves, rfl⟩
    | stored answered => exact ⟨u.host, heap, heap₁, _, _, before, assigned, answered.evolves, rfl⟩

/-- A step without an error began without one, and left the heap to the script:
what changed there was changed by calls of its functions and by new tables. -/
theorem StepDone.evolves (h : StepDone E s t) (fine : t.gERROR = 0) :
    s.gERROR = 0 ∧ ∃ stack heap heap', s.L = some ⟨stack, heap⟩ ∧ Evolves E heap heap' ∧
      t.L = some ⟨stack, heap'⟩ := by
  cases h with
  | reported _ error => exact absurd fine error
  | exchanged only before live exchanged =>
      refine ⟨only.gERROR.symm.trans before, ?_⟩
      cases exchanged with
      | missing => exact absurd (show (1 : UChar) = 0 from fine) (by decide)
      | other => exact absurd (show (1 : UChar) = 0 from fine) (by decide)
      | stored answered => exact ⟨_, _, _, only.L.symm.trans live, answered.evolves, rfl⟩

end Parts

/-! ### Sessions -/

/-- A property of the heap that holds once `gPUser` has been assigned from `u`, and
that the script keeps. -/
structure HeapInv (u : Nat → LuaNumber) (K : Heap σ → Prop) : Prop where
  assigned : ∀ {h : Host} {heap heap' : Heap σ}, h.pUser = u →
    Assigned E "gPUser" (.table heap.bound) (heap.alloc (userTable h)) heap' → K heap'
  evolves : ∀ {heap heap' : Heap σ}, Evolves E heap heap' → K heap → K heap'

/-- `PUser` is `u` in every phase, and `K` holds of the heap as long as no error is
set. -/
def Phase.Keeps (u : Nat → LuaNumber) (K : Heap σ → Prop) : Phase → Dll σ → Prop
  | .idle, s => s.L = none ∧ s.host.pUser = u
  | .started, s => s.L = none ∧ s.host.pUser = u ∧ s.CountsFit ∧ s.gCSimStartOverride ≠ 0
  | .running, s => s.gCSimStartOverride = 0 ∧ s.host.pUser = u ∧ s.CountsFit ∧
      (s.gERROR = 0 → ∃ stack heap, s.L = some ⟨stack, heap⟩ ∧ K heap)

/-- A host that passes the same `PUser` with every call. -/
def HostCall.SamePUser (c : HostCall) : Prop := ∀ h, (c.write h).pUser = h.pUser

section Sessions

variable {u : Nat → LuaNumber} {K : Heap σ → Prop} {phase before after : Phase} {s : Dll σ}
  {p : ReplyCondition}

/-- The host may write what it likes, except to the user cells. -/
theorem Phase.Keeps.host (h : phase.Keeps u K s) {c : HostCall} (same : c.SamePUser) :
    phase.Keeps u K { s with host := c.write s.host } := by
  cases phase with
  | idle => exact ⟨h.1, (same s.host).trans h.2⟩
  | started => exact ⟨h.1, (same s.host).trans h.2.1, h.2.2.1.of_counts rfl rfl, h.2.2.2⟩
  | running => exact ⟨h.1, (same s.host).trans h.2.1, h.2.2.1.of_counts rfl rfl, h.2.2.2⟩

/-- A step without an error leaves a heap that `K` holds of, as it only called
the script and made a table for its argument. -/
theorem StepDone.keeps (inv : HeapInv E u K) {t : Dll σ} (step : StepDone E s t)
    (h : Phase.running.Keeps u K s) : Phase.running.Keeps u K t := by
  obtain ⟨settled, same, fit, live⟩ := h
  have counts := step.counts E
  refine ⟨(step.settled E).trans settled, (step.pUser E).trans same,
    fit.of_counts counts.1 counts.2, fun fine => ?_⟩
  obtain ⟨before, stack, heap, heap', was, evolves, is⟩ := step.evolves E fine
  obtain ⟨_, _, was', holds⟩ := live before
  rw [was] at was'
  cases was'
  exact ⟨stack, heap', is, inv.evolves evolves holds⟩

/-- The start passes the cells to the script. From then on it is the heap that keeps
them. -/
theorem StartDone.keeps (inv : HeapInv E u K) {t : Dll σ} (start : StartDone E s t)
    (h : Phase.started.Keeps u K s) : Phase.running.Keeps u K t.settled := by
  obtain ⟨_, same, fit, _⟩ := h
  have counts := start.counts E
  refine ⟨rfl, (start.pUser E).trans same, fit.of_counts counts.1 counts.2, fun fine => ?_⟩
  obtain ⟨_, _, _, heap', stack, user, assigned, evolves, live⟩ := start.assigned E fine
  exact ⟨stack, heap', live, inv.evolves evolves (inv.assigned (user.trans same) assigned)⟩

/-- `CCalculateEx`, as the first call of a session or as a later one. The first
has the start to do, which puts the cells into the heap. -/
theorem Phase.Keeps.calculate (inv : HeapInv E u K)
    (readsStart : Reads E.toCLib p (.result .gSimStart))
    (reads : Reads E.toCLib p (.result .gCalculate)) (busy : phase ≠ .idle)
    (h : phase.Keeps u K s) :
    EnsuresIf (Dll.Meets p) (cCalculateEx E) s (fun _ t => Phase.running.Keeps u K t)
      (fun e _ => e.Raised) := by
  cases phase with
  | idle => exact absurd rfl busy
  | started =>
      refine (cCalculateEx_first E readsStart reads h.2.2.1 h.2.2.2 h.1).mono ?_
        fun _ _ stop => stop.1
      rintro _ t ⟨v, start, _, step⟩
      exact step.keeps E inv (start.keeps E inv h)
  | running =>
      have live : s.gERROR = 0 → s.L.isSome := fun fine => by
        obtain ⟨stack, heap, live, _⟩ := h.2.2.2 fine
        rw [live]
        rfl
      exact (cCalculateEx_later E reads h.2.2.1 h.1 live).mono
        (fun _ t step => step.keeps E inv h) fun _ _ stop => stop.1

end Sessions

/-! ### The stop -/

/-- The entries of the table that `gPUser` names when `gSimStop`, if there is one,
has returned. -/
def FinalPUser (s : Dll σ) (elem : Nat → TValue) : Prop :=
  ∃ (stack : List TValue) (heap stopped heap' : Heap σ) (v : TValue),
    s.L = some ⟨stack, heap⟩ ∧
    ((∃ values, Answered E s .gSimStop dummyText heap values stopped) ∨
      ∃ w, NotFound E .gSimStop heap w stopped) ∧
    Looked E stopped.globals (.string (lit "gPUser")) stopped v heap' ∧
    elem = (replyOf heap' v).elem

/-- The results can be read, and `gPUser` is left a plain table of numbers. -/
def Persisting (C : CLib) : ReplyCondition
  | .gPUser, _, _, answer => answer.FitsPUser C
  | source, outputs, marked, answer => Readable C source outputs marked answer

theorem Persisting.reads (C : CLib) (source : Source) : Reads C (Persisting C) source := by
  intro outputs marked answer persisting
  cases source with
  | gPUser => exact fun _ => persisting
  | result hook => exact persisting

/-- A `gPUser` that is no table cannot be read back. -/
theorem not_fitsPUser_of_other {C : CLib} {heap : Heap σ} {v : TValue} (other : v.type ≠ .table) :
    ¬(replyOf heap v).FitsPUser C := by
  cases v with
  | table t => exact absurd rfl other
  | _ => exact id

section Stop

variable {s : Dll σ} {u : Nat → LuaNumber} {K : Heap σ → Prop}

/-- The stop puts the final entries into `PUser[0..99]`. The loop ends at 100,
so the last cell that the start passed on is not read back. -/
theorem ScriptStopped.restores {t : Dll σ} (h : ScriptStopped E s t)
    (meets : t.Meets (Persisting E.toCLib)) :
    ∃ elem, FinalPUser E s elem ∧ ∀ i, t.host.pUser i =
      if i < 100 then (elem (i + 1)).num E.toCLib else s.host.pUser i := by
  obtain ⟨stack, heap, stack', stopped, m, live, called, here, restored⟩ := h
  have same : m.host = s.host := by cases called <;> rfl
  -- a script without `gSimStop` ends the same way, only with an error
  have stop : (∃ values, Answered E s .gSimStop dummyText heap values stopped) ∨
      ∃ w, NotFound E .gSimStop heap w stopped := by
    cases called with
    | called answered =>
        cases here
        exact .inl ⟨_, answered⟩
    | missing notFound =>
        cases here
        exact .inr ⟨_, notFound⟩
  cases restored with
  | other _ other =>
      exact absurd (Dll.Meets.noted (s := m) meets) (not_fitsPUser_of_other other)
  | @stored v heap' looked _ =>
      refine ⟨_, ⟨stack, heap, stopped, heap', v, live, stop, looked, rfl⟩, fun i => ?_⟩
      rw [← same]
      exact storedPUser_pUser E.toCLib _ m.host 100 i

/-- At the stop the first 100 cells are read back from the script's table, as
`gSimStop` left it, and cell 100 stays what it was. -/
theorem Phase.Keeps.restores (h : Phase.running.Keeps u K s) (fine : s.gERROR = 0) :
    EnsuresIf (Dll.Meets (Persisting E.toCLib)) (cSimStop E) s
      (fun _ t => ∃ elem, FinalPUser E s elem ∧ ∀ i, t.host.pUser i =
        if i < 100 then (elem (i + 1)).num E.toCLib else u i) (fun e _ => e.Raised) := by
  obtain ⟨_, same, fit, live⟩ := h
  have opened : s.gERROR = 0 → s.L.isSome := fun fine => by
    obtain ⟨stack, heap, live, _⟩ := live fine
    rw [live]
    rfl
  refine (cSimStop_steps E (Persisting.reads _ _) fit opened).keep.mono ?_
    fun _ _ ⟨stop, _⟩ => stop.1
  rintro _ t ⟨done, meets⟩
  cases done with
  | skipped error => exact absurd fine error
  | @stopped v t _ stopped only =>
      -- closing the script adds to the record, so the replies before it are still there
      have before : v.Meets (Persisting E.toCLib) := fun e mem =>
        meets e (only.trace.mem (List.mem_append_left _ mem))
      obtain ⟨elem, final, stored⟩ := stopped.restores E before
      refine ⟨elem, final, fun i => ?_⟩
      rw [only.host, ← same]
      exact stored i

end Stop

/-! ### Scripts that leave `gPUser` alone -/

/-- The global `gPUser` is a plain table with `u` in its entries `1 .. 101`. -/
def PUserIs (u : Nat → LuaNumber) (heap : Heap σ) : Prop :=
  ∃ t, (heap.table heap.globals).node (.string (lit "gPUser")) = .table t ∧
    (heap.table t).metatable = false ∧
    ∀ i, i < 101 → (heap.table t).node (.number (.ofNat (i + 1))) = .number (u i)

/-- A script that never assigns `gPUser`: neither its functions nor its metamethods
change the global or the table, and if a metatable of the globals takes the
assignment of the start over, it carries it out. -/
structure KeepsPUser : Prop where
  call : ∀ {u : Nat → LuaNumber} {func : TValue} {args values : List TValue} {heap heap' : Heap σ},
    E.call func args heap = .returned values heap' → PUserIs u heap → PUserIs u heap'
  index : ∀ {u : Nat → LuaNumber} {t key : TValue} {values : List TValue} {heap heap' : Heap σ},
    E.index t key heap = .returned values heap' → PUserIs u heap → PUserIs u heap'
  newindex : ∀ {h : Host} {values : List TValue} {heap heap' : Heap σ},
    E.newindex (.table heap.globals) (.string (lit "gPUser")) (.table heap.bound)
      (heap.alloc (userTable h)) = .returned values heap' → PUserIs h.pUser heap'

/-- A new table is not the one of the user cells, nor the table of the globals.
-/
theorem PUserIs.alloc {u : Nat → LuaNumber} {heap : Heap σ} (h : PUserIs u heap) (T : Table) :
    PUserIs u (heap.alloc T) := by
  obtain ⟨t, names, plain, entries⟩ := h
  have globals : heap.globals ≠ heap.bound := Nat.ne_of_lt heap.globals_used
  -- the table is in use, for it has an entry
  have used : t ≠ heap.bound := by
    rintro rfl
    have first := entries 0 (by decide)
    have unused : heap.table heap.bound = .empty := by
      unfold Heap.table
      rw [heap.fresh heap.bound (Nat.le_refl _)]
      rfl
    rw [unused] at first
    cases first
  refine ⟨t, ?_, ?_, ?_⟩
  · rw [Heap.alloc_globals, Heap.alloc_table_of_ne heap T globals]
    exact names
  · rw [Heap.alloc_table_of_ne heap T used]
    exact plain
  · rw [Heap.alloc_table_of_ne heap T used]
    exact entries

/-- The assignment of the start puts the cells where the script finds them: with
plain globals by itself, and otherwise as `keeps` says of the metamethod. -/
theorem PUserIs.of_assigned (keeps : KeepsPUser E) {h : Host} {heap heap' : Heap σ}
    (assigned : Assigned E "gPUser" (.table heap.bound) (heap.alloc (userTable h)) heap') :
    PUserIs h.pUser heap' := by
  obtain rfl | ⟨values, returned⟩ := assigned
  swap
  · have stored : E.newindex (.table heap.globals) (.string (lit "gPUser")) (.table heap.bound)
        (heap.alloc (userTable h)) = .returned values heap' := returned
    exact keeps.newindex stored
  have globals : heap.globals ≠ heap.bound := Nat.ne_of_lt heap.globals_used
  have inside : heap.globals < (heap.alloc (userTable h)).bound :=
    Nat.lt_succ_of_lt heap.globals_used
  have user : ((heap.alloc (userTable h)).store heap.globals (.string (lit "gPUser"))
      (.table heap.bound)).table heap.bound = userTable h := by
    rw [Heap.store_table_of_ne _ globals.symm, Heap.alloc_table_self]
  refine ⟨heap.bound, ?_, ?_, fun i lt => ?_⟩
  · rw [Heap.store_globals, Heap.alloc_globals, Heap.store_table_self _ inside]
    simp [Table.store]
  · rw [Heap.alloc_globals, user]
    exact arrayTable_metatable _ _
  · rw [Heap.alloc_globals, user]
    exact arrayTable_node _ (by omega) (by omega)

/-- What such a script keeps, over any sequence of calls, lookups and new
tables. -/
theorem KeepsPUser.heapInv (keeps : KeepsPUser E) (u : Nat → LuaNumber) :
    HeapInv E u (PUserIs u) where
  assigned := fun same assigned => same ▸ PUserIs.of_assigned E keeps assigned
  evolves := fun evolves is => by
    induction evolves with
    | refl => exact is
    | tail _ step ih =>
        cases step with
        | call returned => exact keeps.call returned ih
        | index returned => exact keeps.index returned ih
        | alloc T => exact ih.alloc T

/-- A table that holds the cells as numbers can be read back whole. Its 101
entries cover the 100 that are read. -/
theorem PUserIs.fits {u : Nat → LuaNumber} {heap : Heap σ} {t : Nat} {C : CLib}
    (plain : (heap.table t).metatable = false)
    (entries : ∀ i, i < 101 → (heap.table t).node (.number (.ofNat (i + 1))) = .number (u i)) :
    (replyOf heap (.table t)).FitsPUser C := by
  refine ⟨by simp [plain], fun i lt => ?_⟩
  show ((heap.table t).node (.number (.ofNat (i + 1)))).isnumber C = true
  rw [entries i (by omega)]
  rfl

section Kept

variable {s : Dll σ} {u : Nat → LuaNumber}

/-- Reading an untouched `gPUser` back changes nothing in `PUser`: the first 100
cells are written with what they were, and the others are not written. -/
theorem PUserIs.restore {stack : List TValue} {heap : Heap σ} (is : PUserIs u heap)
    (same : s.host.pUser = u) {A : Stop → Dll σ → Prop} :
    Ensures (restorePUser E) (s.withL ⟨stack, heap⟩)
      (fun _ t => (∃ l, t.L = some l) ∧ t.host.pUser = u) A := by
  obtain ⟨t, names, plain, entries⟩ := is
  have present : (heap.table heap.globals).node (.string (lit "gPUser")) ≠ .nil := by
    rw [names]
    simp
  have read := run_luaGettable_globals E stack heap present
  rw [names] at read
  refine .step (run_height (l := ⟨stack, heap⟩)) (.step (run_onL (run_push _ _)) ?_)
  refine .step (run_onL read) (.of_ok (run_takePUser E (PUserIs.fits plain entries)) ?_)
  refine ⟨⟨_, rfl⟩, funext fun i => ?_⟩
  refine (storedPUser_pUser E.toCLib _ s.host 100 i).trans ?_
  split
  · next lt =>
      show (((heap.table t).node (.number (.ofNat (i + 1)))).num E.toCLib) = u i
      rw [entries i (by omega)]
      rfl
  · rw [same]

/-- The end of a session of such a script. Whether there is a `gSimStop` or not,
the table is still the one of the start. -/
theorem Phase.Keeps.stop (keeps : KeepsPUser E) (h : Phase.running.Keeps u (PUserIs u) s)
    (fine : s.gERROR = 0) :
    Ensures (cSimStop E) s (fun _ t => t.L = none ∧ t.host.pUser = u) (fun e _ => e.Raised) := by
  obtain ⟨_, same, fit, live⟩ := h
  obtain ⟨stack, heap, opened, is⟩ := live fine
  have stopping : Ensures (stopScript E) s
      (fun _ t => (∃ l, t.L = some l) ∧ t.host.pUser = u) (fun e _ => e.Raised) := by
    refine .step (run_get s) (.ite (fun _ => ?_) fun no => absurd fine no)
    have call := callStop_outcome E fit stack heap
    rw [Dll.withL_self opened] at call
    refine (call.mono (fun _ _ h => h) fun _ _ stop => stop.1).bind fun _ t called => ?_
    have inv := keeps.heapInv E u
    cases called with
    | called answered =>
        exact PUserIs.restore E (s := s.called .gSimStop dummyText)
          (inv.evolves answered.evolves is) same
    | @missing v heap' notFound =>
        exact PUserIs.restore E (s := { s.replied (.result .gSimStop) .missing with gERROR := 1 })
          (inv.evolves notFound.evolves is) same
  refine stopping.bind fun _ t ⟨⟨l, here⟩, kept⟩ => ?_
  refine (closing_outcome here).mono (fun _ w only => ?_) fun _ _ h => h
  exact ⟨only.L, only.pUser.trans kept⟩

/-- Without a script running, the stop leaves `PUser` alone. -/
theorem cSimStop_pUser (error : s.gERROR ≠ 0) {A : Stop → Dll σ → Prop} :
    Ensures (cSimStop E) s (fun _ t => t.L = none ∧ t.host.pUser = s.host.pUser) A := by
  refine (cSimStop_skipped E error).mono (fun _ t ⟨v, close, only⟩ => ?_) fun _ _ h => h
  obtain rfl | ⟨closed, rfl⟩ := close
  · exact ⟨only.L, only.pUser⟩
  · exact ⟨only.L.trans closed, only.pUser⟩

end Kept

/-! ### Runs -/

/-- What the host keeps to: it passes the same `PUser` with every call, and the
channel counts fit whenever a session starts. -/
def KeepsCounts (s : Dll σ) (c : HostCall) : Prop :=
  c.SamePUser ∧ (c.entry = .cSimStart → s.CountsFit)

/-- The results of the simulation can be read; `gPUser` is left open. -/
def ResultsReadable (C : CLib) : ReplyCondition
  | .gPUser, _, _, _ => True
  | source, outputs, marked, answer => Readable C source outputs marked answer

section Runs

variable {s : Dll σ} {u : Nat → LuaNumber} {before after : Phase}

/-- One call of a host whose script leaves `gPUser` alone. A query and a start
do not touch the cells, a step keeps the script's table, and a stop copies it
back. -/
theorem HostCall.keepsPUser (keeps : KeepsPUser E) {c : HostCall}
    (move : before.next c = some after) (host : KeepsCounts s c)
    (h : before.Keeps u (PUserIs u) s) :
    EnsuresIf (Dll.Meets (ResultsReadable E.toCLib)) (c.perform E) s
      (fun _ t => after.Keeps u (PUserIs u) t) (fun _ _ => True) := by
  have h' := h.host host.1
  refine HostCall.ensures E ?_
  by_cases idle : before = .idle
  · subst idle
    rcases Phase.next_idle move with ⟨query, rfl⟩ | ⟨start, rfl⟩
    · have asked : Within .closed SameSession (c.entry.perform E) :=
        Entry.query_within E SameSession.askFrame (fun _ h => h) (by simp) query
      exact ((asked _ h'.1).mono (fun _ t ⟨closed, same⟩ => ⟨closed,
        (congrArg Host.pUser same.host).trans h'.2⟩) fun _ _ _ => trivial).conditional
    · rw [start, Entry.perform_cSimStart]
      exact Ensures.conditional (.bind (.modify ⟨h'.1, h'.2, (host.2 start).of_counts rfl rfl,
        by simp⟩) fun _ _ h => .pure h)
  · rcases Phase.next_busy idle move with ⟨run, rfl⟩ | ⟨stop, rfl⟩
    · rw [run, Entry.perform_cCalculateEx]
      have reads : ∀ hook, Reads E.toCLib (ResultsReadable E.toCLib) (.result hook) :=
        fun _ _ _ _ h => h
      exact ((h'.calculate E (keeps.heapInv E u) (reads _) (reads _) idle).mono (fun _ _ h => h)
        fun _ _ _ => trivial).bind (fun _ => .pure (fun _ => id) _)
          fun _ _ done => .pure fun _ => done
    · rw [stop, Entry.perform_cSimStop]
      have finish : Ensures (cSimStop E) { s with host := c.write s.host }
          (fun _ t => Phase.idle.Keeps u (PUserIs u) t) (fun _ _ => True) := by
        by_cases fine : s.gERROR = 0
        · cases before with
          | idle => exact absurd rfl idle
          | started => exact .of_error (cSimStop_null E h'.1 fine) trivial
          | running => exact (h'.stop E keeps fine).mono (fun _ _ h => h) fun _ _ _ => trivial
        · have user : (c.write s.host).pUser = u := by
            cases before with
            | idle => exact absurd rfl idle
            | started => exact h'.2.1
            | running => exact h'.2.1
          exact (cSimStop_pUser E (s := { s with host := c.write s.host }) fine).mono
            (fun _ t ⟨closed, kept⟩ => ⟨closed, kept.trans user⟩) fun _ _ h => h
      exact Ensures.conditional (finish.bind fun _ _ done => .pure done)

/-- The same in a single session, with its steps counted. -/
def Progress.Keeps (u : Nat → LuaNumber) (K : Heap σ → Prop) : Progress → Dll σ → Prop
  | .ready, s => s.L = none ∧ s.host.pUser = u ∧ s.CountsFit
  | .pending, s => Phase.started.Keeps u K s
  | .after _, s => Phase.running.Keeps u K s
  | .ended _, _ => True

/-- One call of a session keeps the cells where they have to be at that point:
in the host's array until the start, and then in the script's table as well. -/
theorem HostCall.progressKeeps {K : Heap σ → Prop} (inv : HeapInv E u K) {before after : Progress}
    {c : HostCall} (move : before.next c = some after) (same : c.SamePUser)
    (h : before.Keeps u K s) :
    EnsuresIf (Dll.Meets (Persisting E.toCLib)) (c.perform E) s (fun _ t => after.Keeps u K t)
      (fun _ _ => True) := by
  have reads : ∀ hook, Reads E.toCLib (Persisting E.toCLib) (.result hook) := fun _ =>
    Persisting.reads _ _
  have step : ∀ phase : Phase, phase ≠ .idle → phase.Keeps u K s →
      EnsuresIf (Dll.Meets (Persisting E.toCLib)) (Entry.cCalculateEx.perform E)
        { s with host := c.write s.host } (fun _ t => Phase.running.Keeps u K t)
        (fun _ _ => True) := fun phase busy h =>
    (((h.host same).calculate E inv (reads _) (reads _) busy).mono (fun _ _ h => h)
      fun _ _ _ => trivial).bind (fun _ => .pure (fun _ => id) _) fun _ _ done =>
        .pure fun _ => done
  refine HostCall.ensures E ?_
  obtain ⟨write, entry⟩ := c
  cases before <;> cases entry <;> cases move
  · exact Ensures.conditional (.bind (.modify ⟨h.1, (same s.host).trans h.2.1,
      h.2.2.of_counts rfl rfl, by simp⟩) fun _ _ h => .pure h)
  · exact step .started (by simp) h
  · exact step .running (by simp) h
  · exact Ensures.conditional (Ensures.trivially _ _)

/-- A session up to its last step leaves `PUser` as it was, and the script open if
there is no error. -/
theorem front_keeps {calls : List HostCall} {k : Nat} {rs : List Returned} {m : Dll σ}
    (front : follow Progress.next .ready calls = some (.after k))
    (same : ∀ c ∈ calls, c.SamePUser) (closed : s.L = none) (fit : s.CountsFit)
    (run : runCalls E calls s = .ok rs m) (meets : m.Meets (Persisting E.toCLib)) :
    Phase.running.Keeps s.host.pUser (fun _ => True) m := by
  have inv : HeapInv E s.host.pUser fun _ : Heap σ => True :=
    ⟨fun _ _ => trivial, fun _ _ => trivial⟩
  have start : Progress.ready.Keeps s.host.pUser (fun _ => True) s := ⟨closed, rfl, fit⟩
  have keeps : EnsuresIf (Dll.Meets (Persisting E.toCLib)) (runCalls E calls) s
      (fun _ t => (Progress.after k).Keeps s.host.pUser (fun _ => True) t) (fun _ _ => True) :=
    EnsuresIf.runAll_along (HostCall.reflects E)
      (fun _ _ _ _ move same h => HostCall.progressKeeps E inv move same h) front
      (Along.of_all same s) start
  exact keeps.ok run meets

end Runs

/-- The parameters persist.

After a session with no error, `PUser[0..99]` holds the numeric values of the
entries that the script left in `gPUser`, and the rest of `PUser` is as it was.
Over any number of sessions, queries between them, of a script that never assigns
`gPUser`, the whole of `PUser` stays what it was. -/
theorem pUser_persists :
    (∀ (s m : Dll σ) (calls : List HostCall) (stop : HostCall) (k : Nat) (rs : List Returned),
      Reached E .idle s → s.CountsFit →
      follow Progress.next .ready calls = some (.after k) → stop.entry = .cSimStop →
      (∀ c ∈ stop :: calls, c.SamePUser) →
      runCalls E calls s.recordAnew = .ok rs m → m.gERROR = 0 →
      EnsuresIf (Dll.Meets (Persisting E.toCLib)) (stop.perform E) m
        (fun _ t => ∃ elem, FinalPUser E { m with host := stop.write m.host } elem ∧
          ∀ i, t.host.pUser i =
            if i < 100 then (elem (i + 1)).num E.toCLib else s.host.pUser i)
        (fun e _ => e.Raised)) ∧
    (KeepsPUser E → ∀ (s : Dll σ) (calls : List HostCall) (last : Phase),
      Reached E .idle s → follow Phase.next .idle calls = some last →
      Along (HostCall.perform E) KeepsCounts calls s.recordAnew →
      EnsuresIf (Dll.Meets (ResultsReadable E.toCLib)) (runCalls E calls) s.recordAnew
        (fun _ t => t.host.pUser = s.host.pUser) (fun _ _ => True)) := by
  constructor
  · intro s m calls stop k rs idle fit front stops same run fine
    have closed : s.L = none := idle.inv
    refine EnsuresIf.from_start (HostCall.reflects E stop) fun meets => HostCall.ensures E ?_
    have keeps := front_keeps E (s := s.recordAnew) front
      (fun c mem => same c (List.mem_cons_of_mem _ mem)) closed (fit.of_counts rfl rfl) run meets
    have passed := keeps.host (same stop List.mem_cons_self)
    rw [stops, Entry.perform_cSimStop]
    exact (passed.restores E fine).bind (fun _ => .pure (fun _ => id) _) fun _ _ done =>
      .pure fun _ => done
  · intro keeps s calls last idle protocol along
    have closed : s.L = none := idle.inv
    have start : Phase.idle.Keeps s.host.pUser (PUserIs s.host.pUser) s.recordAnew := ⟨closed, rfl⟩
    have run : EnsuresIf (Dll.Meets (ResultsReadable E.toCLib)) (runCalls E calls) s.recordAnew
        (fun _ t => last.Keeps s.host.pUser (PUserIs s.host.pUser) t) (fun _ _ => True) :=
      EnsuresIf.runAll_along (HostCall.reflects E)
        (fun _ _ _ _ move host h => HostCall.keepsPUser E keeps move host h) protocol along start
    refine run.mono (fun _ t h => ?_) fun _ _ h => h
    cases last with
    | idle => exact h.2
    | started => exact h.2.1
    | running => exact h.2.1

instance {C : CLib} : ∀ source outputs marked, DecidablePred (Persisting C source outputs marked)
  | .gPUser, _, _, answer => inferInstanceAs (Decidable (answer.FitsPUser C))
  | .result hook, outputs, marked, answer =>
      inferInstanceAs (Decidable (Readable C (.result hook) outputs marked answer))

/-- A Lua state whose globals are there from the start, and functions that return
their argument. -/
def preloadedScript : Env Unit :=
  { sampleScript with
    luaOpen := fun _ => (sampleScript.luaOpen 0).map fun h =>
      [("gNumInputs", TValue.number (.ofNat 1)), ("gNumOutputs", .number (.ofNat 1)),
        ("gSimStart", .function 1), ("gCalculate", .function 2)].foldl
          (fun h (name, v) => h.store 0 (.string (lit name)) v) h
    call := fun _ args h => .returned args h }

/-- The sample script never assigns `gPUser`, and has no metamethods that could.
-/
theorem preloadedScript_keeps : KeepsPUser preloadedScript where
  call := fun returned is => by
    cases returned
    exact is
  index := fun returned _ => by cases returned
  newindex := fun returned => by cases returned

theorem Persisting.results {C : CLib} {s : Dll σ} (h : s.Meets (Persisting C)) :
    s.Meets (ResultsReadable C) := by
  refine h.mono fun source outputs marked answer persisting => ?_
  cases source with
  | gPUser => trivial
  | result hook => exact persisting

/-- The counts, with 3 in every cell of `PUser`. -/
def countsWithPUser : List HostCall :=
  [⟨fun h => { h with pUser := fun _ => .ofNat 3 }, .cNumInputsEx⟩, ⟨id, .cNumOutputsEx⟩]

def frontCalls : List HostCall := quietCalls [.cSimStart, .cCalculateEx]

def wholeCalls : List HostCall := quietCalls [.cSimStart, .cCalculateEx, .cSimStop]

/-- A host with 3 in `PUser` keeps it over a session whose script has no
`gSimStop`. -/
theorem pUser_persists_preloadedScript :
    (∃ m rs t elem, HostCall.perform preloadedScript ⟨id, .cSimStop⟩ m = .ok rs t ∧
      FinalPUser preloadedScript { m with host := m.host } elem ∧
      t.host.pUser 1 = (elem 2).num preloadedScript.toCLib ∧ t.host.pUser 100 = .ofNat 3) ∧
    ∃ s rs t, Reached preloadedScript .idle s ∧ s.host.pUser 1 = .ofNat 3 ∧
      runCalls preloadedScript wholeCalls s.recordAnew = .ok rs t ∧
      t.host.pUser = s.host.pUser := by
  have sample : Ensures (runCalls preloadedScript countsWithPUser) (Dll.init sampleHost)
      (fun _ s => s.CountsFit ∧ s.host.pUser 1 = .ofNat 3 ∧ s.host.pUser 100 = .ofNat 3 ∧
        Ensures (runCalls preloadedScript frontCalls) s.recordAnew
          (fun _ m => m.gERROR = 0 ∧ Ensures (HostCall.perform preloadedScript ⟨id, .cSimStop⟩) m
            (fun _ t => t.Meets (Persisting preloadedScript.toCLib)) fun _ _ => False)
          (fun _ _ => False) ∧
        Ensures (runCalls preloadedScript wholeCalls) s.recordAnew
          (fun _ t => t.Meets (Persisting preloadedScript.toCLib)) fun _ _ => False)
      (fun _ _ => False) := by
    decide +kernel
  obtain ⟨rs, s, run, fit, first, last, front, whole⟩ := sample.returns
  have idle : Reached preloadedScript .idle s := ⟨sampleHost, countsWithPUser, rs, by decide, run⟩
  constructor
  · obtain ⟨rs', m, toStop, fine, stop⟩ := front.returns
    obtain ⟨r, t, stopped, meets⟩ := stop.returns
    have same : ∀ c ∈ (⟨id, .cSimStop⟩ : HostCall) :: frontCalls, c.SamePUser := by
      simp [frontCalls, quietCalls, HostCall.SamePUser]
    obtain ⟨elem, final, stored⟩ := ((pUser_persists preloadedScript).1 s m frontCalls
      ⟨id, .cSimStop⟩ 1 rs' idle fit (by decide) rfl same toStop fine).ok stopped meets
    exact ⟨m, r, t, elem, stopped, final, stored 1, (stored 100).trans last⟩
  · obtain ⟨rs', t, ran, meets⟩ := whole.returns
    have keeps : Along (HostCall.perform preloadedScript) KeepsCounts wholeCalls s.recordAnew :=
      ⟨⟨fun _ => rfl, fun _ => fit.of_counts rfl rfl⟩, fun _ _ _ => ⟨⟨fun _ => rfl, nofun⟩,
        fun _ _ _ => ⟨⟨fun _ => rfl, nofun⟩, fun _ _ _ => trivial⟩⟩⟩
    exact ⟨s, rs', t, idle, first, ran, ((pUser_persists preloadedScript).2 preloadedScript_keeps s
      wholeCalls .idle idle (by decide) keeps).ok ran (Persisting.results meets)⟩

end ProfiLua
