import ProfiLua.Dll.Lockstep
import ProfiLua.Dll.Markers
import ProfiLua.Dll.Steps

/-!
A session and the past.

A session queries the channel counts, starts, makes some steps and stops. It
sets up everything it computes with but the counts, which stay what they were
when the script does not define them. So the past shows in a session exactly
when it left other counts, and the script leaves one of these undefined
(`session_independent_iff`).
-/

namespace ProfiLua

open Program

variable {σ : Type} (E : Env σ)

/-! ### Counts -/

/-- The file the next count query opens. -/
def scriptFile (s : Dll σ) : UChar := castUChar E.toCLib (s.host.pUser 100)

/-- What the script says about a count: nothing if it does not define it. The
outer `none` is an error it raises. -/
def scriptCount (name : String) (file : UChar) (heap : Heap σ) : Option (Option UChar) :=
  (entry E (scriptHeap E file heap).globals (.string (lit name)) (scriptHeap E file heap)).map
    fun found =>
      if found.1 = .nil then none else some (castUChar E.toCLib (found.1.num E.toCLib) + 1)

/-- The state with what the script says stored. -/
def counted (store : UChar → Dll σ → Dll σ) (count : Option UChar) (s : Dll σ) : Dll σ :=
  match count with
  | some n => store n s
  | none => s

/-- How a count query leaves the state `s`. -/
structure Counted (name : String) (heap : Heap σ) (store : UChar → Dll σ → Dll σ) (s t : Dll σ) :
    Prop where
  closed : t.L = none
  host : t.host = s.host
  counts : ∃ count, scriptCount E name (scriptFile E s) heap = some count ∧
    SameCounts (counted store count s) t

/-- A global is pushed on the stack; a metamethod of the globals may have a word
in it, and may raise an error. -/
theorem luaGetglobal_entry (name : String) (rest : List TValue) (heap : Heap σ) :
    Ensures (luaGetglobal E name) ⟨rest, heap⟩
      (fun _ l => ∃ v heap', entry E heap.globals (.string (lit name)) heap = some (v, heap') ∧
        l = ⟨v :: rest, heap'⟩) (fun _ _ => True) := by
  refine .step (run_valueAt (index2adr_globals _)) ?_
  cases read : entry E heap.globals (.string (lit name)) heap with
  | none =>
      obtain ⟨error, l, run⟩ := run_luaVGettable_raises read rest
      rw [ensures_bind]
      exact .of_error run trivial
  | some found =>
      obtain ⟨v, heap'⟩ := found
      exact .step (run_luaVGettable_entry read rest) (.of_ok (run_push v _) ⟨v, heap', rfl, rfl⟩)

section Query

variable {E} {heap : Heap σ} {store : UChar → Dll σ → Dll σ}

/-- Storing a count leaves the host's arrays, and what it does to the counts
depends on the counts alone. -/
structure StoresCount (store : UChar → Dll σ → Dll σ) : Prop where
  host : ∀ n s, (store n s).host = s.host
  counts : ∀ n s t, SameCounts s t → SameCounts (store n s) (store n t)

/-- Storing the count of the inputs leaves `L` and the host alone. -/
theorem storesInputs : StoresCount (σ := σ) fun n s => { s with gNumInputs := n } where
  host _ _ := rfl
  counts _ _ _ same := ⟨rfl, same.2⟩

theorem storesOutputs : StoresCount (σ := σ) fun n s => { s with gNumOutputs := n } where
  host _ _ := rfl
  counts _ _ _ same := ⟨same.1, rfl⟩

/-- The count on top of the stack is stored, one more than it says, unless it is
`nil`; then the old count stays. This is the one place where the past comes in.
-/
theorem readCount_outcome (stores : StoresCount store) {s : Dll σ} {v : TValue}
    {rest : List TValue} {heap' : Heap σ} {A : Stop → Dll σ → Prop} :
    Ensures (readCount E store) (s.withL ⟨v :: rest, heap'⟩)
      (fun _ t => t.host = s.host ∧ SameCounts (counted store (if v = .nil then none
        else some (castUChar E.toCLib (v.num E.toCLib) + 1)) s) t) A := by
  refine .step (run_onL (run_luaHasType .nil)) (.ite (fun isnil => ?_) fun notnil => ?_)
  · have nil : v = .nil := by
      cases v with
      | nil => rfl
      | _ => cases of_decide_eq_true isnil
    rw [if_pos nil]
    exact .pure ⟨rfl, rfl, rfl⟩
  · have some : v ≠ .nil := by
      rintro rfl
      exact notnil rfl
    rw [if_neg some]
    refine .step (run_onL (run_luaTonumber E)) (.modify ⟨stores.host _ _, ?_⟩)
    exact stores.counts _ _ _ ⟨rfl, rfl⟩

/-- Closing the script keeps the counts. -/
theorem closeLuaScript_counts (s : Dll σ) {A : Stop → Dll σ → Prop} :
    Ensures closeLuaScript s (fun _ t => t.L = none ∧ t.host = s.host ∧ SameCounts s t) A := by
  refine .modify ?_
  split
  · exact ⟨rfl, rfl, rfl, rfl⟩
  · rename_i shut
    exact ⟨by simpa using shut, rfl, rfl, rfl⟩

theorem StoresCount.counted (stores : StoresCount store) (count : Option UChar) {s t : Dll σ}
    (same : SameCounts s t) :
    SameCounts (ProfiLua.counted store count s) (ProfiLua.counted store count t) := by
  cases count with
  | none => exact same
  | some n => exact stores.counts n s t same

/-- What a count query leaves depends on the past through the old count alone,
and only if the script says nothing: file, Lua state and chunk are those of the
query itself. -/
theorem countQuery_outcome (stores : StoresCount store) {s : Dll σ} (closed : s.L = none)
    (memory : E.luaOpen s.epoch = some heap) (name : String) :
    Ensures (countQuery E name store) s (fun _ t => Counted E name heap store s t)
      (fun _ _ => True) := by
  refine Ensures.bind (Q := fun _ t => t = { s with gFileNum := scriptFile E s }) (.modify rfl) ?_
  rintro _ _ rfl
  refine (openLuaScript_heap (s := { s with gFileNum := scriptFile E s }) closed memory .query).bind
    fun opened t ⟨yes, stack, chunk, same⟩ => ?_
  subst same
  refine .ite (fun _ => ?_) fun no => absurd yes no
  generalize known : ({ s with gFileNum := scriptFile E s, epoch := s.epoch + 1 }.note
    [.luaOpen]).note chunk = u
  have host : u.host = s.host := by rw [← known]; rfl
  have counts : SameCounts s u := by rw [← known]; exact ⟨rfl, rfl⟩
  have lookup : Ensures (onL (luaGetglobal E name))
      (u.withL ⟨stack, scriptHeap E (scriptFile E s) heap⟩)
      (fun _ t => ∃ v heap', entry E (scriptHeap E (scriptFile E s) heap).globals
          (.string (lit name)) (scriptHeap E (scriptFile E s) heap) = some (v, heap') ∧
        t = u.withL ⟨v :: stack, heap'⟩) (fun _ _ => True) :=
    ensures_onL ((luaGetglobal_entry E name stack _).mono
      (fun _ l ⟨v, heap', read, same⟩ => ⟨v, heap', read, by rw [same]⟩) fun _ _ _ => trivial)
  refine lookup.bind fun _ t ⟨v, heap', read, same⟩ => ?_
  subst same
  refine (readCount_outcome stores).bind fun _ w ⟨kept, stored⟩ => ?_
  refine (closeLuaScript_counts w).mono (fun _ x ⟨shut, same, last⟩ => ?_) fun _ _ h => h
  refine ⟨shut, same.trans (kept.trans host), _, congrArg (Option.map _) read, ?_⟩
  obtain ⟨inputs, outputs⟩ := stores.counted _ counts
  exact ⟨last.1.trans (stored.1.trans inputs), last.2.trans (stored.2.trans outputs)⟩

end Query

/-! ### Two states before a session -/

/-- The cells the host and the DLL share, but for the inputs. -/
structure Host.SameCells (h k : Host) : Prop where
  pOutput : h.pOutput = k.pOutput
  pUser : h.pUser = k.pUser
  pString : h.pString = k.pString

/-- What the host writes before a step sets the inputs. -/
def SetsInputs (write : Host → Host) : Prop := ∀ h k : Host, h.SameCells k → write h = write k

/-- Two states without a simulation, with the same cells. -/
structure Past (s t : Dll σ) : Prop where
  left : s.L = none
  right : t.L = none
  cells : s.host.SameCells t.host

/-- The counts the script leaves undefined are the same. -/
structure CountsAgree (heap : Heap σ) (s t : Dll σ) : Prop where
  inputs : scriptCount E "gNumInputs" (scriptFile E s) heap = some none →
    s.gNumInputs = t.gNumInputs
  outputs : scriptCount E "gNumOutputs" (scriptFile E s) heap = some none →
    s.gNumOutputs = t.gNumOutputs

/-- During a count query. -/
structure Counting (s t : Dll σ) : Prop where
  L : s.L = t.L
  gFileNum : s.gFileNum = t.gFileNum
  cells : s.host.SameCells t.host

/-- During a count query the two states agree on all the script can see. -/
theorem Counting.observes : Observes (Counting (σ := σ)) where
  L := fun _ _ h => h.L
  gFileNum := fun _ _ h => h.gFileNum
  setL := fun _ _ _ h => { h with L := rfl }
  record := fun _ _ _ _ _ _ _ _ h => { h with }

/-- Two runs of a count query, each with what the script says of the count. -/
structure BothCounted (name : String) (heap : Heap σ) (store : UChar → Dll σ → Dll σ)
    (s t s' t' : Dll σ) : Prop where
  past : Past s' t'
  gFileNum : s'.gFileNum = t'.gFileNum
  host : s'.host = s.host
  counts : ∃ count, scriptCount E name (scriptFile E s) heap = some count ∧
    SameCounts (counted store count s) s' ∧ SameCounts (counted store count t) t'

section Queries

variable {E} {heap : Heap σ} (memory : ∀ n, E.luaOpen n = some heap)

/-- With the same user cells both states open the same file. -/
theorem scriptFile_same {s t : Dll σ} (cells : s.host.SameCells t.host) :
    scriptFile E s = scriptFile E t := by
  unfold scriptFile
  rw [cells.pUser]

include memory

/-- Two closed states stay in step through a count query: both open the same
file in the same fresh Lua state, and from then on they see the same. -/
theorem countQuery_couples (name : String) {store : UChar → Dll σ → Dll σ}
    (keeps : ∀ n s t, Counting s t → Counting (store n s) (store n t)) :
    Couples Past Counting (countQuery E name store) := by
  have O : Observes (Counting (σ := σ)) := Counting.observes
  have file : Couples Past Counting (modify fun s =>
      { s with gFileNum := castUChar E.toCLib (s.host.pUser 100) } : DllM σ PUnit) :=
    .modify fun s t past =>
      ⟨past.left.trans past.right.symm, scriptFile_same (E := E) past.cells, past.cells⟩
  refine file.bind fun _ => (O.openLuaScript E memory .query).bind fun opened => .ite ?_ ?_
  · refine (O.onL _).bind fun _ => Couples.bind (S := Counting) ?_ fun _ => O.closeLuaScript
    refine (O.onL _).bind fun undefined => .ite (Observes.pure _) ?_
    exact (O.onL _).bind fun d => .modify fun s t h => keeps _ s t h
  · exact .modify fun s t h => { h with }

/-- The same, with what each of the two states has counted. The script says the
same to both, so the counts are the same afterwards if it says one, and the old
ones if it does not. -/
theorem countQuery_both (name : String) {store : UChar → Dll σ → Dll σ} (stores : StoresCount store)
    (keeps : ∀ n s t, Counting s t → Counting (store n s) (store n t))
    {R S : Dll σ → Dll σ → Prop} (past : ∀ s t, R s t → Past s t)
    (after : ∀ s t s' t', R s t → BothCounted E name heap store s t s' t' → S s' t') :
    Couples R S (countQuery E name store) := by
  refine Couples.combine (P := fun s _ s' => Counted E name heap store s s')
    ((countQuery_couples memory name keeps).mono past fun _ _ h => h) ?_ ?_ ?_
  · exact fun s t h => countQuery_outcome stores (past s t h).left (memory _) name
  · exact fun s t h => countQuery_outcome stores (past s t h).right (memory _) name
  · intro s t _ s' t' related counting left right
    obtain ⟨count, told, stored⟩ := left.counts
    obtain ⟨count', told', stored'⟩ := right.counts
    have same : count = count' := by
      rw [← scriptFile_same (past s t related).cells, told] at told'
      exact Option.some.inj told'
    subst same
    exact after s t s' t' related ⟨⟨left.closed, right.closed, counting.cells⟩, counting.gFileNum,
      left.host, count, told, stored, stored'⟩

/-- The first query of a session: from then on the counts of the inputs are the
same. -/
theorem cNumInputsEx_couples :
    Couples (fun s t => Past s t ∧ CountsAgree E heap s t)
      (fun s t => (Past s t ∧ CountsAgree E heap s t) ∧ s.gNumInputs = t.gNumInputs)
      (cNumInputsEx E) := by
  refine Couples.bind (S := fun s t => (Past s t ∧ CountsAgree E heap s t) ∧
    s.gNumInputs = t.gNumInputs) ?_ fun _ => ?_
  · refine countQuery_both memory "gNumInputs" storesInputs (fun _ _ _ h => { h with })
      (fun _ _ h => h.1) ?_
    rintro s t s' t' ⟨past, agree⟩ both
    obtain ⟨count, told, stored, stored'⟩ := both.counts
    have inputs : s'.gNumInputs = t'.gNumInputs := by
      rw [stored.1, stored'.1]
      cases count with
      | none => exact agree.inputs told
      | some n => rfl
    refine ⟨⟨both.past, fun _ => inputs, fun undefined => ?_⟩, inputs⟩
    have file : scriptFile E s' = scriptFile E s := by rw [scriptFile, both.host]; rfl
    rw [stored.2, stored'.2]
    cases count <;> exact agree.outputs (file ▸ undefined)
  · exact .get (fun s t h => by rw [h.2]) fun _ => .pure _ fun _ _ h => h

/-- The second one: then the states differ in nothing that a start depends on.
Markers, flag and console may still differ, but the start sets them up again. -/
theorem cNumOutputsEx_couples :
    Couples (fun s t => (Past s t ∧ CountsAgree E heap s t) ∧ s.gNumInputs = t.gNumInputs)
      (fun s t => Past s t ∧ s.gFileNum = t.gFileNum ∧ SameCounts s t) (cNumOutputsEx E) := by
  refine Couples.bind (S := fun s t => Past s t ∧ s.gFileNum = t.gFileNum ∧ SameCounts s t) ?_
    fun _ => ?_
  · refine countQuery_both memory "gNumOutputs" storesOutputs (fun _ _ _ h => { h with })
      (fun _ _ h => h.1.1) ?_
    rintro s t s' t' ⟨⟨past, agree⟩, inputs⟩ both
    obtain ⟨count, told, stored, stored'⟩ := both.counts
    refine ⟨both.past, both.gFileNum, ?_, ?_⟩
    · rw [stored.1, stored'.1]
      cases count <;> exact inputs.symm
    · rw [stored.2, stored'.2]
      cases count with
      | none => exact (agree.outputs told).symm
      | some n => rfl
  · exact .get (fun s t h => by rw [h.2.2.2]) fun _ => .pure _ fun _ _ h => h

end Queries

/-! ### Sessions -/

/-- The calls of a session whose steps come with these writes of the host. -/
def sessionCalls (writes : List (Host → Host)) : List HostCall :=
  ⟨id, .cNumInputsEx⟩ :: ⟨id, .cNumOutputsEx⟩ :: ⟨id, .cSimStart⟩ ::
    (writes.map (fun write => ⟨write, .cCalculateEx⟩) ++ [⟨id, .cSimStop⟩])

/-- What a session leaves for the host. -/
structure SameResults (s t : Dll σ) : Prop where
  pOutput : s.host.pOutput = t.host.pOutput
  pString : s.host.pString = t.host.pString
  pUser : s.host.pUser = t.host.pUser
  gERROR : s.gERROR = t.gERROR

/-- Twins return the same and leave the same to the host. -/
theorem Twins.results {n : Nat} {s t : Dll σ} (h : Twins n s t) : SameResults s t :=
  ⟨by rw [h.host], by rw [h.host], by rw [h.host], h.gERROR⟩

section Session

variable {heap : Heap σ} (memory : ∀ n, E.luaOpen n = some heap)

/-- A call writes the same to both hosts and then performs the same function. -/
theorem perform_couples {R S T : Dll σ → Dll σ → Prop} {write : Host → Host} {entry : Entry}
    (writes : ∀ s t, R s t → S { s with host := write s.host } { t with host := write t.host })
    (h : Couples S T (entry.perform E)) : Couples R T (HostCall.perform E ⟨write, entry⟩) :=
  Couples.bind (.modify writes) fun _ => h

/-- A call for which the host writes nothing. -/
theorem perform_id_couples {R S : Dll σ → Dll σ → Prop} {entry : Entry}
    (h : Couples R S (entry.perform E)) : Couples R S (HostCall.perform E ⟨id, entry⟩) :=
  perform_couples E (fun _ _ related => related) h

/-- What is the same between the start and the first step. -/
structure Pending (s t : Dll σ) : Prop where
  past : Past s t
  gFileNum : s.gFileNum = t.gFileNum
  counts : SameCounts s t
  left : s.gCSimStartOverride = 1
  right : t.gCSimStartOverride = 1

include memory

/-- The step that makes the start turns states that agree on what a start needs
into twins: it writes every marker, the flag and the pin before it reads them.
-/
theorem firstStep_couples {write : Host → Host} (inputs : SetsInputs write) :
    Couples Pending (Twins markerSize) (HostCall.perform E ⟨write, .cCalculateEx⟩) := by
  refine perform_couples E (S := fun s t => Fresh s t ∧ s.gCSimStartOverride = 1) ?_ ?_
  · intro s t h
    exact ⟨⟨h.past.left.trans h.past.right.symm, h.counts.1.symm, h.counts.2.symm, h.gFileNum,
      h.left.trans h.right.symm, inputs _ _ h.past.cells⟩, h.left⟩
  · have step : Couples (fun s t : Dll σ => Fresh s t ∧ s.gCSimStartOverride = 1)
        (Twins markerSize) (cCalculateEx E) := .of_alike fun s t h =>
      cCalculateEx_couples E memory h.1 (by rw [h.2]; decide)
    exact step.bind fun _ => Lock.pure _

theorem nextStep_lock {write : Host → Host} : Lock (HostCall.perform E ⟨write, .cCalculateEx⟩) :=
  perform_couples E (fun _ _ h => { h with host := congrArg write h.host })
    ((cCalculateEx_lock E memory).bind fun _ => Lock.pure _)

/-- Two sessions end alike when the counts agree. The two queries make the
counts the same, the start makes twins of the states, and twins stay twins to
the end. -/
theorem session_couples {writes : List (Host → Host)} (steps : writes ≠ [])
    (inputs : ∀ write ∈ writes, SetsInputs write) :
    Couples (fun s t => Past s t ∧ CountsAgree E heap s t) (Twins markerSize)
      (runCalls E (sessionCalls writes)) := by
  obtain ⟨write, rest, rfl⟩ := List.exists_cons_of_ne_nil steps
  have stop : Lock (HostCall.perform E ⟨id, .cSimStop⟩) :=
    perform_id_couples E ((cSimStop_lock E).bind fun _ => Lock.pure _)
  have later : Lock (runCalls E
      (rest.map (fun write => ⟨write, .cCalculateEx⟩) ++ [⟨id, .cSimStop⟩])) := by
    refine Lockstep.runAll fun c mem => ?_
    rcases List.mem_append.mp mem with step | last
    · obtain ⟨next, -, rfl⟩ := List.mem_map.mp step
      exact nextStep_lock E memory
    · obtain rfl := List.mem_singleton.mp last
      exact stop
  have start : Couples (fun s t : Dll σ => Past s t ∧ s.gFileNum = t.gFileNum ∧ SameCounts s t)
      Pending (Entry.cSimStart.perform E) :=
    Couples.bind (.modify fun _ _ h => ⟨{ h.1 with }, h.2.1, h.2.2, rfl, rfl⟩) fun _ =>
      .pure _ fun _ _ h => h
  have queryInputs : Couples _ _ (Entry.cNumInputsEx.perform E) :=
    (cNumInputsEx_couples memory).bind fun _ => .pure _ fun _ _ h => h
  have queryOutputs : Couples _ _ (Entry.cNumOutputsEx.perform E) :=
    (cNumOutputsEx_couples memory).bind fun _ => .pure _ fun _ _ h => h
  refine (perform_id_couples E queryInputs).bind fun _ => Couples.bind ?_ fun _ =>
    .pure _ fun _ _ h => h
  refine (perform_id_couples E queryOutputs).bind fun _ => Couples.bind ?_ fun _ =>
    .pure _ fun _ _ h => h
  refine (perform_id_couples E start).bind fun _ => Couples.bind ?_ fun _ =>
    .pure _ fun _ _ h => h
  refine (firstStep_couples E memory (inputs write List.mem_cons_self)).bind fun _ =>
    Couples.bind later fun _ => .pure _ fun _ _ h => h

/-! ### What the host sees of the counts -/

/-- What the first query returns: an undefined count is the old one. -/
theorem cNumInputsEx_counted {s : Dll σ} (closed : s.L = none) :
    Ensures (Entry.cNumInputsEx.perform E) s
      (fun r t => ∃ n, r = .count n ∧ t.L = none ∧ scriptFile E t = scriptFile E s ∧
        t.gNumOutputs = s.gNumOutputs ∧
        (scriptCount E "gNumInputs" (scriptFile E s) heap = some none → n = s.gNumInputs))
      (fun _ _ => True) := by
  have query : Ensures (cNumInputsEx E) s
      (fun n t => n = t.gNumInputs ∧ Counted E "gNumInputs" heap _ s t) (fun _ _ => True) :=
    (countQuery_outcome storesInputs closed (memory _) "gNumInputs").bind fun _ t counted =>
      .step (run_get t) (.pure ⟨rfl, counted⟩)
  refine query.bind fun n t ⟨same, done⟩ => .pure ⟨n, rfl, done.closed, ?_, ?_, fun undefined => ?_⟩
  · rw [scriptFile, done.host]
    rfl
  · obtain ⟨count, told, stored⟩ := done.counts
    rw [stored.2]
    cases count <;> rfl
  · obtain ⟨count, told, stored⟩ := done.counts
    rw [undefined] at told
    obtain rfl := Option.some.inj told
    rw [same, stored.1]
    rfl

theorem cNumOutputsEx_counted {s : Dll σ} (closed : s.L = none) :
    Ensures (Entry.cNumOutputsEx.perform E) s
      (fun r _ => ∃ n, r = .count n ∧
        (scriptCount E "gNumOutputs" (scriptFile E s) heap = some none → n = s.gNumOutputs))
      (fun _ _ => True) := by
  have query : Ensures (cNumOutputsEx E) s
      (fun n t => n = t.gNumOutputs ∧ Counted E "gNumOutputs" heap _ s t) (fun _ _ => True) :=
    (countQuery_outcome storesOutputs closed (memory _) "gNumOutputs").bind fun _ t counted =>
      .step (run_get t) (.pure ⟨rfl, counted⟩)
  refine query.bind fun n t ⟨same, done⟩ => .pure ⟨n, rfl, fun undefined => ?_⟩
  obtain ⟨count, told, stored⟩ := done.counts
  rw [undefined] at told
  obtain rfl := Option.some.inj told
  rw [same, stored.2]
  rfl

/-- A session begins with the two counts; an undefined one is the old one. So
the host can see from the replies what an earlier script has left. -/
theorem session_counts (writes : List (Host → Host)) {s : Dll σ} (closed : s.L = none) :
    Ensures (runCalls E (sessionCalls writes)) s
      (fun replies _ => ∃ n k rest, replies = .count n :: .count k :: rest ∧
        (scriptCount E "gNumInputs" (scriptFile E s) heap = some none → n = s.gNumInputs) ∧
        (scriptCount E "gNumOutputs" (scriptFile E s) heap = some none → k = s.gNumOutputs))
      (fun _ _ => True) := by
  refine Ensures.bind (HostCall.ensures E (s := s) (cNumInputsEx_counted E memory closed)) ?_
  rintro r t ⟨n, rfl, closed', file, outputs, inputs⟩
  have second : Ensures (runCalls E (sessionCalls writes).tail) t
      (fun replies _ => ∃ k rest, replies = .count k :: rest ∧
        (scriptCount E "gNumOutputs" (scriptFile E s) heap = some none → k = s.gNumOutputs))
      (fun _ _ => True) := by
    refine Ensures.bind (HostCall.ensures E (s := t) (cNumOutputsEx_counted E memory closed')) ?_
    rintro r' u ⟨k, rfl, kept⟩
    refine (Ensures.trivially _ _).bind fun rest v _ => .pure ⟨k, rest, rfl, fun undefined => ?_⟩
    have told := congrArg (fun f => scriptCount E "gNumOutputs" f heap) file
    exact (kept (told.trans undefined)).trans outputs
  refine second.bind ?_
  rintro replies u ⟨k, rest, rfl, kept⟩
  exact .pure ⟨n, k, rest, rfl, inputs, kept⟩

end Session

/-- For any two states the DLL can be in without a simulation, however the host
and its scripts brought it there: a session that returns in one of them returns
the same and leaves the same in the other, exactly when the counts its script
does not define are the same in both. One direction is `session_couples`; for
the other, the first two replies show the counts. -/
theorem session_independent_iff {heap : Heap σ} (memory : ∀ n, E.luaOpen n = some heap)
    {E₁ E₂ : Env σ} {s₁ s₂ : Dll σ} (reached₁ : Reached E₁ .idle s₁)
    (reached₂ : Reached E₂ .idle s₂) (cells : s₁.host.SameCells s₂.host)
    {writes : List (Host → Host)} (steps : writes ≠ [])
    (inputs : ∀ write ∈ writes, SetsInputs write) {replies : List Returned} {t₁ : Dll σ}
    (returns : runCalls E (sessionCalls writes) s₁ = .ok replies t₁) :
    (∃ t₂, runCalls E (sessionCalls writes) s₂ = .ok replies t₂ ∧ SameResults t₁ t₂) ↔
      CountsAgree E heap s₁ s₂ := by
  have past : Past s₁ s₂ := ⟨reached₁.inv, reached₂.inv, cells⟩
  constructor
  · rintro ⟨t₂, returns', -⟩
    obtain ⟨n, k, rest, begins, ins, outs⟩ := (session_counts E memory writes past.left).ok returns
    obtain ⟨n', k', rest', begins', ins', outs'⟩ :=
      (session_counts E memory writes past.right).ok returns'
    rw [begins] at begins'
    cases begins'
    rw [← scriptFile_same cells] at ins' outs'
    exact ⟨fun undefined => (ins undefined).symm.trans (ins' undefined),
      fun undefined => (outs undefined).symm.trans (outs' undefined)⟩
  · intro agree
    have alike := (session_couples E memory steps inputs).alike (s := s₁) (t := s₂) ⟨past, agree⟩
    rw [returns] at alike
    obtain ⟨t₂, returns', twins⟩ := alike.ok_left
    exact ⟨t₂, returns', twins.results⟩

/-! ### Two scripts -/

/-- File 1 defines a count of two inputs, and no other file defines anything. -/
def twoScripts : Env Unit :=
  { sampleEnv [] fun func _ heap =>
      ([], if func = 1 then heap.store 0 (.string (lit "gNumInputs")) (.number (.ofNat 2))
        else heap) with
    load := fun file heap => (.function (if file = 1 then 1 else 0), heap) }

/-- All inputs low. -/
def lowInputs (host : Host) : Host := { host with pInput := fun _ => .fin 0 }

/-- The host asked for the counts of file 1, and went back to file 0. -/
def earlierCalls : List HostCall :=
  [⟨fun host => { host with pUser := fun _ => .fin 1 }, .cNumInputsEx⟩,
    ⟨fun _ => sampleHost, .getInputName 0⟩]

theorem earlierCalls_host (s : Dll Unit) :
    Ensures (runCalls twoScripts earlierCalls) s (fun _ t => t.host = sampleHost)
      (fun _ _ => True) := by
  refine (Ensures.trivially _ _).bind fun r t _ => ?_
  have last : Ensures (runCalls twoScripts [⟨fun _ => sampleHost, .getInputName 0⟩]) t
      (fun _ u => u.host = sampleHost) (fun _ _ => True) :=
    .of_ok rfl rfl
  exact last.bind fun _ _ h => .pure h

theorem lowInputs_setsInputs : SetsInputs lowInputs := by
  rintro ⟨_, _, _, _⟩ ⟨_, _, _, _⟩ ⟨rfl, rfl, rfl⟩
  rfl

/-- The script of file 0 does not define the counts: a fresh DLL has none. -/
theorem freshSession : Ensures (runCalls twoScripts (sessionCalls [lowInputs]))
    (Dll.init sampleHost) (fun replies _ => replies.head? = some (.count 0))
    (fun _ _ => False) := by
  decide +kernel

/-- The earlier calls leave three inputs behind, for any session that follows. -/
theorem earlierCalls_leave :
    ∃ before s, runCalls twoScripts earlierCalls (Dll.init sampleHost) = .ok before s ∧
      Reached twoScripts .idle s ∧ sampleHost.SameCells s.host ∧ s.gNumInputs = 3 ∧
      Ensures (runCalls twoScripts (sessionCalls [lowInputs])) s
        (fun replies _ => replies.head? = some (.count 3)) fun _ _ => False := by
  have later : Ensures (runCalls twoScripts earlierCalls) (Dll.init sampleHost)
      (fun _ s => s.gNumInputs = 3 ∧ Ensures (runCalls twoScripts (sessionCalls [lowInputs])) s
        (fun replies _ => replies.head? = some (.count 3)) fun _ _ => False)
      (fun _ _ => False) := by decide +kernel
  obtain ⟨before, s, earlier, three, session⟩ := later.returns
  have host : s.host = sampleHost := (earlierCalls_host _).ok earlier
  refine ⟨before, s, earlier, ⟨sampleHost, earlierCalls, before, by decide, earlier⟩, ?_, three,
    session⟩
  rw [host]
  exact ⟨rfl, rfl, rfl⟩

/-- The sample script defines both counts, so a session of it is the same after the
earlier calls as in a fresh DLL. -/
theorem session_independent_iff_earlier :
    ∃ heap before s replies t, runCalls twoScripts earlierCalls (Dll.init sampleHost) =
        .ok before s ∧ s.gNumInputs ≠ (Dll.init sampleHost : Dll Unit).gNumInputs ∧
      runCalls sampleScript (sessionCalls [lowInputs]) (Dll.init sampleHost) = .ok replies t ∧
      CountsAgree sampleScript heap (Dll.init sampleHost) s ∧
      ((∃ t', runCalls sampleScript (sessionCalls [lowInputs]) s = .ok replies t' ∧
        SameResults t t') ↔ CountsAgree sampleScript heap (Dll.init sampleHost) s) := by
  obtain ⟨before, s, earlier, reached, cells, three, -⟩ := earlierCalls_leave
  have session : Ensures (runCalls sampleScript (sessionCalls [lowInputs])) (Dll.init sampleHost)
      (fun _ _ => True) (fun _ _ => False) := by decide +kernel
  obtain ⟨replies, t, returns, -⟩ := session.returns
  have fresh : Reached twoScripts .idle (Dll.init sampleHost) := ⟨sampleHost, [], [], rfl, rfl⟩
  refine ⟨_, before, s, replies, t, earlier, by rw [three]; decide, returns, ?_,
    session_independent_iff sampleScript (fun _ => rfl) fresh reached cells (List.cons_ne_nil _ _)
      (by simpa using lowInputs_setsInputs) returns⟩
  exact ⟨fun undefined => absurd undefined (by decide +kernel),
    fun undefined => absurd undefined (by decide +kernel)⟩

/-- A session of file 0 reports no inputs in a fresh DLL and three after file 1
was asked for its counts. -/
theorem earlierCounts_show :
    ∃ s₁ s₂, Reached twoScripts .idle s₁ ∧ Reached twoScripts .idle s₂ ∧
      s₁.host.SameCells s₂.host ∧
      (∃ rest t, runCalls twoScripts (sessionCalls [lowInputs]) s₁ = .ok (.count 0 :: rest) t) ∧
      ∃ rest t, runCalls twoScripts (sessionCalls [lowInputs]) s₂ = .ok (.count 3 :: rest) t := by
  have begins : ∀ {replies : List Returned} {n : UChar}, replies.head? = some (.count n) →
      ∃ rest, replies = .count n :: rest := by
    intro replies n head
    cases replies with
    | nil => cases head
    | cons r rest => exact ⟨rest, by rw [Option.some.inj head]⟩
  obtain ⟨replies, t₁, returns, zero⟩ := freshSession.returns
  obtain ⟨rest, rfl⟩ := begins zero
  obtain ⟨before, s₂, -, reached, cells, -, session⟩ := earlierCalls_leave
  obtain ⟨replies', t₂, returns', three⟩ := session.returns
  obtain ⟨rest', rfl⟩ := begins three
  exact ⟨Dll.init sampleHost, s₂, ⟨sampleHost, [], [], rfl, rfl⟩, reached, cells,
    ⟨rest, t₁, returns⟩, rest', t₂, returns'⟩

end ProfiLua
