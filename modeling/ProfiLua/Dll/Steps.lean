import ProfiLua.Dll.Query
import ProfiLua.Dll.ReadBack

/-!
What one part of a simulation can do when the script's tables are well typed.

A reply is readable if it is no table at all, or a plain table whose elements
can all be stored. As long as every reply in the record is readable, the start,
a step and a stop have a handful of outcomes each, listed here constructor by
constructor (`Started`, `Exchanged`, `Restored`); a part stops only when the
script raises an error.
-/

namespace ProfiLua

open Program

variable {σ : Type} (E : Env σ)

/-! ### Readable replies -/

def Reply.IsTable : Reply → Prop
  | .table .. => True
  | _ => False

instance : DecidablePred Reply.IsTable
  | .table .. => .isTrue trivial
  | .value _ => .isFalse id
  | .missing => .isFalse id

/-- A condition on what the script answers, with `gNumOutputs` and the output
markers at that time. -/
abbrev ReplyCondition := Source → Nat → (Nat → Bool) → Reply → Prop

/-- A reply that is no table, or one that can be stored whole. -/
def Readable (C : CLib) : ReplyCondition
  | .result .gSimStart, outputs, marked, answer =>
      answer.IsTable → answer.FitsStart C outputs marked
  | .result .gCalculate, outputs, marked, answer => answer.IsTable → answer.Fits C outputs marked
  | .gPUser, _, _, answer => answer.IsTable → answer.FitsPUser C
  | _, _, _, _ => True

instance {C : CLib} : ∀ source outputs marked, DecidablePred (Readable C source outputs marked)
  | .result .gSimStart, outputs, marked, answer =>
      inferInstanceAs (Decidable (answer.IsTable → answer.FitsStart C outputs marked))
  | .result .gCalculate, outputs, marked, answer =>
      inferInstanceAs (Decidable (answer.IsTable → answer.Fits C outputs marked))
  | .gPUser, _, _, answer => inferInstanceAs (Decidable (answer.IsTable → answer.FitsPUser C))
  | .result .gSimStop, _, _, _ => .isTrue trivial
  | .result .gInputName, _, _, _ => .isTrue trivial
  | .result .gOutputName, _, _, _ => .isTrue trivial

variable {p : ReplyCondition}

/-- A reply that meets the condition, or no reply. -/
def Event.Meets (p : ReplyCondition) : Event → Prop
  | .reply source outputs marked answer => p source outputs marked answer
  | _ => True

/-- Every reply so far met the condition. -/
def Dll.Meets (p : ReplyCondition) (s : Dll σ) : Prop := ∀ e ∈ s.trace, e.2.Meets p

/-- The record with the run still to come. -/
def Dll.recordAnew (s : Dll σ) : Dll σ := { s with balanced := true, trace := [] }

section Decidable

variable [∀ source outputs marked, DecidablePred (p source outputs marked)]

instance : DecidablePred (Event.Meets p)
  | .reply source outputs marked answer =>
      inferInstanceAs (Decidable (p source outputs marked answer))
  | .luaOpen => .isTrue trivial
  | .luaClose => .isTrue trivial
  | .activation .. => .isTrue trivial
  | .dummy _ => .isTrue trivial
  | .consoleOn => .isTrue trivial
  | .consoleOff => .isTrue trivial

instance (s : Dll σ) : Decidable (s.Meets p) :=
  inferInstanceAs (Decidable (∀ e ∈ s.trace, e.2.Meets p))

end Decidable

/-- The replies from this source that meet the condition are readable. -/
def Reads (C : CLib) (p : ReplyCondition) (source : Source) : Prop :=
  ∀ outputs marked answer, p source outputs marked answer → Readable C source outputs marked answer

theorem Readable.reads (C : CLib) (source : Source) : Reads C (Readable C) source :=
  fun _ _ _ h => h

theorem Dll.Meets.mono {q : ReplyCondition} {s : Dll σ} (h : s.Meets p)
    (weaker : ∀ source outputs marked answer, p source outputs marked answer →
      q source outputs marked answer) : s.Meets q := by
  rintro ⟨n, e⟩ mem
  have meets := h _ mem
  cases e with
  | reply source outputs marked answer => exact weaker _ _ _ _ meets
  | _ => trivial

/-- A record that meets the condition now met it at any earlier time. -/
theorem Dll.Meets.of_grows {Allowed : Event → Prop} {s t : Dll σ} (grows : Grows Allowed s t)
    (h : t.Meets p) : s.Meets p :=
  fun e mem => h e (grows.mem mem)

/-- An event just noted meets the condition if the record does. -/
theorem Dll.Meets.noted {s : Dll σ} {e : Event} (h : (s.note [e]).Meets p) : e.Meets p :=
  h (s.epoch, e) (List.mem_append_right _ (by simp))

theorem Grows.entryFrame : EntryFrame (Grows (σ := σ) fun _ => True) where
  toOutputFrame := Grows.outputFrame _
  markers := fun _ _ _ => .of_same rfl rfl
  epoch := fun s => .of_epoch _ s
  gFileNum := fun _ _ => .of_same rfl rfl
  counts := fun _ _ _ => .of_same rfl rfl
  raised := fun _ => .of_same rfl rfl
  gCSimStartOverride := fun _ _ => .of_same rfl rfl
  console := fun _ _ only => only.trace.mono fun _ _ => trivial

/-- The record only grows, so what holds of all of it is reflected by every part
that stays in its frame. -/
theorem reflects_of_grows {α : Type} {x : DllM σ α}
    (h : Within .either (Grows fun _ => True) x) : Reflects (Dll.Meets p) x :=
  fun s => (h s trivial).mono (fun _ _ ⟨_, grows⟩ => .of_grows grows)
    fun _ _ ⟨_, grows⟩ => .of_grows grows

/-- A whole call of the host only adds to the record: if every reply met the
condition after it, every reply met it before. -/
theorem HostCall.reflects (c : HostCall) : Reflects (Dll.Meets (σ := σ) p) (c.perform E) :=
  reflects_of_grows (HostCall.within E Grows.entryFrame c)

/-- The frame of the record, for the parts of the start, the step and the stop. -/
theorem growing : WritingFrame (fun _ => True) (Grows (σ := σ) fun _ => True) :=
  (Grows.outputFrame _).writing

section Parts

variable {s : Dll σ} {stack : List TValue} {heap : Heap σ} {bar : Int}

/-- Where a reply is taken, it may be assumed to meet the condition. -/
theorem EnsuresIf.answer {v : TValue} {source : Source} {x : DllM σ PUnit}
    {Q : PUnit → Dll σ → Prop} {A : Stop → Dll σ → Prop} (reflects : Reflects (Dll.Meets p) x)
    (h : p source s.gNumOutputs.toNat s.outputMarks (replyOf heap v) →
      EnsuresIf (Dll.Meets p) (emitReply source >>= fun _ => x) (s.withL ⟨v :: stack, heap⟩) Q A) :
    EnsuresIf (Dll.Meets p) (emitReply source >>= fun _ => x) (s.withL ⟨v :: stack, heap⟩) Q A := by
  by_cases good : p source s.gNumOutputs.toNat s.outputMarks (replyOf heap v)
  · exact h good
  · have last : ∀ t : Dll σ,
        (t.Meets p → ((s.replied source (replyOf heap v)).withL ⟨v :: stack, heap⟩).Meets p) →
        ¬t.Meets p := fun t back h => good (Dll.Meets.noted (back h))
    exact .step (run_emitReply source) ((reflects _).mono
      (fun _ t back h => absurd h (last t back)) fun _ t back h => absurd h (last t back))

/-- Where a reply is taken, it may be assumed to be readable. -/
theorem EnsuresIf.reply {C : CLib} {v : TValue} {source : Source} {x : DllM σ PUnit}
    {Q : PUnit → Dll σ → Prop} {A : Stop → Dll σ → Prop} (reads : Reads C p source)
    (reflects : Reflects (Dll.Meets p) x)
    (h : Readable C source s.gNumOutputs.toNat s.outputMarks (replyOf heap v) →
      EnsuresIf (Dll.Meets p) (emitReply source >>= fun _ => x) (s.withL ⟨v :: stack, heap⟩) Q A) :
    EnsuresIf (Dll.Meets p) (emitReply source >>= fun _ => x) (s.withL ⟨v :: stack, heap⟩) Q A :=
  EnsuresIf.answer reflects fun good => h (reads _ _ _ good)

end Parts

/-! ### A step -/

/-- The entry of a string pin in a step. -/
def stepText (s : Dll σ) (i : Nat) : TValue := .string (cstr (s.host.pString i))

/-- The entry of a string pin at the start and the stop. -/
def dummyText (_ : Nat) : TValue := .number (.fin 0)

/-- The outcomes of the data exchange with `gCalculate`; its first result counts. -/
inductive Exchanged (s : Dll σ) (stack : List TValue) (heap : Heap σ) : Dll σ → Prop where
  | missing {v : TValue} {heap' : Heap σ} (notFound : NotFound E .gCalculate heap v heap') :
      Exchanged s stack heap
        (Dll.withL { s.replied (.result .gCalculate) .missing with gERROR := 1 }
          ⟨v :: stack, heap'⟩)
  | other {v : TValue} {values : List TValue} {heap' : Heap σ}
      (answered : Answered E s .gCalculate (stepText s) heap values heap')
      (first : v = values.headD .nil) (other : v.type ≠ .table) :
      Exchanged s stack heap
        (Dll.withL { (s.called .gCalculate (stepText s)).replied (.result .gCalculate)
          (replyOf heap' v) with gERROR := 1 } ⟨v :: stack, heap'⟩)
  | stored {v : TValue} {values : List TValue} {heap' : Heap σ}
      (answered : Answered E s .gCalculate (stepText s) heap values heap')
      (first : v = values.headD .nil)
      (fits : (replyOf heap' v).Fits E.toCLib s.gNumOutputs.toNat s.outputMarks) :
      Exchanged s stack heap
        (Dll.withL { (s.called .gCalculate (stepText s)).replied (.result .gCalculate)
          (replyOf heap' v) with
            host := s.host.stored (Host.storeResult E.toCLib s.outputMarks (replyOf heap' v).elem)
              1 s.gNumOutputs.toNat } ⟨stack, heap'⟩)

section Step

variable {s : Dll σ} {stack : List TValue} {heap : Heap σ} {bar : Int}

theorem replyOf_isTable {v : TValue} (h : v.type = .table) : (replyOf heap v).IsTable := by
  cases v with
  | table t => trivial
  | _ => cases h

/-- The exchange ends in one of the three ways of `Exchanged`, or the script
raises an error on the way. The replies noted have to be such that a table fits
(`Reads`): with an element the loop cannot use, the stack is popped once too
often and none of the three holds. The bar only has to be so low that no pop can
go below it. -/
theorem exchange_outcome (reads : Reads E.toCLib p (.result .gCalculate)) (fit : s.CountsFit)
    (below : bar ≤ stack.length - 1) :
    EnsuresIf (Dll.Meets p) (exchange E bar) (s.withL ⟨stack, heap⟩)
      (fun _ t => Exchanged E s stack heap t) (Interrupted s) := by
  refine (callHook_outcome E .gCalculate pushPString_pushes fit 1 stack heap).bind_if
    fun found t h => ?_
  cases found with
  | false =>
      obtain ⟨v, heap', notFound, rfl⟩ := h
      exact .of_ok rfl fun _ => .missing notFound
  | true =>
      obtain ⟨values, heap', answered, rfl⟩ := h
      rw [adjustResults_one]
      obtain ⟨v, first⟩ : ∃ v, v = values.headD .nil := ⟨_, rfl⟩
      rw [← first]
      have reflects : Reflects (Dll.Meets p) (takeTable (σ := σ) bar 1
          (fun s => s.gNumOutputs.toNat) (readOutput E bar) (setError 1)) :=
        reflects_of_grows (takeTable_within growing (by simp) bar _ _
          (readOutput_within E growing (by simp) bar) (.setError growing 1))
      refine EnsuresIf.reply (s := s.called .gCalculate (stepText s)) reads reflects
        fun readable => ?_
      -- what the function gave: only a table is taken apart, and it is taken whole because it
      -- fits
      by_cases table : v.type = .table
      · have fits := readable (replyOf_isTable table)
        exact .of_ok (run_readResult E (fit.of_counts rfl rfl) below fits) fun _ =>
          .stored answered first fits
      · exact .of_ok (ok_bind (run_emitReply _) (takeTable_other table (run_setError 1 _)))
          fun _ => .other answered first table

/-- A whole step, with its check of the stack at the end: whatever the exchange
left is compared with the height it started from, and the answer goes into
`balanced`. -/
theorem calculate_outcome (reads : Reads E.toCLib p (.result .gCalculate)) (fit : s.CountsFit)
    (stack : List TValue) (heap : Heap σ) :
    EnsuresIf (Dll.Meets p) (calculate E) (s.withL ⟨stack, heap⟩)
      (fun _ t => ∃ u, Exchanged E s stack heap u ∧ t = { u with
        balanced := u.balanced && u.L.all fun l => decide (l.gettop = (stack.length : Int) - 1) })
      (Interrupted s) := by
  refine .step (run_height (l := ⟨stack, heap⟩)) ?_
  refine (exchange_outcome E reads fit (Int.le_refl _)).bind (fun _ => ?_) ?_
  · exact reflects_of_grows (.check growing.toFrame _)
  · exact fun _ u exchanged => .of_ok (run_check _ u) fun _ => ⟨u, exchanged, rfl⟩

end Step

/-! ### The start -/

/-- The outcomes of calling `gSimStart`. -/
inductive Started (s : Dll σ) (stack : List TValue) (heap : Heap σ) : Dll σ → Prop where
  | missing {v : TValue} {heap' : Heap σ} (notFound : NotFound E .gSimStart heap v heap') :
      Started s stack heap
        ((s.replied (.result .gSimStart) .missing).withL ⟨v :: stack, heap'⟩)
  | other {v : TValue} {values : List TValue} {heap' : Heap σ}
      (answered : Answered E s .gSimStart dummyText heap values heap')
      (first : v = values.headD .nil) (other : v.type ≠ .table) :
      Started s stack heap
        (Dll.withL { (s.called .gSimStart dummyText).replied (.result .gSimStart)
          (replyOf heap' v) with
            gERROR := 0
            host := { s.host with pOutput := Function.update s.host.pOutput 0 plOk } }
          ⟨v :: stack, heap'⟩)
  | stored {v : TValue} {values : List TValue} {heap' : Heap σ} {h : Host}
      (answered : Answered E s .gSimStart dummyText heap values heap')
      (first : v = values.headD .nil)
      (fits : (replyOf heap' v).FitsStart E.toCLib s.gNumOutputs.toNat s.outputMarks)
      (stored : h = s.host.stored
        (Host.storeStartResult E.toCLib s.outputMarks (replyOf heap' v).elem) 1
          s.gNumOutputs.toNat) :
      Started s stack heap
        (Dll.withL { (s.called .gSimStart dummyText).replied (.result .gSimStart)
          (replyOf heap' v) with
            gERROR := 0
            host := { h with pOutput := Function.update h.pOutput 0 plOk } } ⟨stack, heap'⟩)

section Start

variable {s : Dll σ} {stack : List TValue} {heap : Heap σ} {bar : Int}

/-- The start ends in one of the three ways of `Started`, or the script raises
an error. Whatever `gSimStart` answered, the error flag is taken back: the
source sets `gERROR = 0` after both branches, so only a missing function leaves
it up. -/
theorem startScript_outcome (reads : Reads E.toCLib p (.result .gSimStart)) (fit : s.CountsFit)
    (below : bar ≤ stack.length - 1) :
    EnsuresIf (Dll.Meets p) (startScript E bar) (s.withL ⟨stack, heap⟩)
      (fun _ t => Started E s stack heap t) (Interrupted s) := by
  refine (callHook_outcome E .gSimStart stringDummy_pushes fit 1 stack heap).bind_if
    fun found t h => ?_
  cases found with
  | false =>
      obtain ⟨v, heap', notFound, rfl⟩ := h
      exact .of_ok rfl fun _ => .missing notFound
  | true =>
      obtain ⟨values, heap', answered, rfl⟩ := h
      rw [adjustResults_one]
      obtain ⟨v, first⟩ : ∃ v, v = values.headD .nil := ⟨_, rfl⟩
      rw [← first]
      have finish : Within .either (Grows fun _ => True) (do
          setPOutput (σ := σ) 0 plOk
          setError 0) :=
        .bind growing.toFrame (.setPOutput growing 0 plOk) fun _ => .setError growing 0
      have reflects : Reflects (Dll.Meets p) (takeTable (σ := σ) bar 1
          (fun s => s.gNumOutputs.toNat) (readStartOutput E bar) (setError 1)) :=
        reflects_of_grows (takeTable_within growing (by simp) bar _ _
          (readStartOutput_within E growing (by simp) bar) (.setError growing 1))
      -- the flag is cleared after either outcome of the reading
      have read : EnsuresIf (Dll.Meets p) (readStartResult E bar)
          ((s.called .gSimStart dummyText).withL ⟨v :: stack, heap'⟩)
          (fun _ t => ∀ u, (do setPOutput 0 plOk; setError 0) t = .ok ⟨⟩ u →
            Started E s stack heap u) (Interrupted s) := by
        refine EnsuresIf.reply (s := s.called .gSimStart dummyText) reads reflects
          fun readable => ?_
        by_cases table : v.type = .table
        · have fits := readable (replyOf_isTable table)
          refine .of_ok (run_readStartResult E (fit.of_counts rfl rfl) below fits)
            fun _ u done => ?_
          cases done
          exact .stored answered first fits rfl
        · refine .of_ok (ok_bind (run_emitReply _) (takeTable_other table (run_setError 1 _)))
            fun _ u done => ?_
          cases done
          exact .other answered first table
      exact read.bind (fun _ => reflects_of_grows finish) fun _ t next => .of_ok rfl fun _ =>
        next _ rfl

/-- The array the start assigns to `gPUser`. -/
def userTable (h : Host) : Table := arrayTable (fun i => .number (h.pUser (i - 1))) 101

/-- The loop builds the array of the user cells, and assigning the global either
stores it or leaves it to the metatable of the globals. The heap it leaves is
named, so that what the script finds afterwards can be looked up in it. -/
theorem storePUser_assigns (stack : List TValue) (heap : Heap σ) :
    Ensures (storePUser E) (s.withL ⟨stack, heap⟩)
      (fun _ t => ∃ heap', assign E heap.globals (.string (lit "gPUser")) (.table heap.bound)
        (heap.alloc (userTable s.host)) = some heap' ∧ t = s.withL ⟨stack, heap'⟩)
      (Interrupted s) := by
  refine .step (run_onL (run_luaCreatetable (by decide))) ?_
  -- after i rounds the table under construction holds the first i cells
  let path (i : Nat) : Dll σ := s.withL ⟨.table heap.bound :: stack,
    heap.alloc (arrayTable (fun i => .number (s.host.pUser (i - 1))) i)⟩
  refine .step (t := path 101) (run_countUp path (Nat.zero_le _) fun i _ _ => ?_) ?_
  · refine ok_bind (run_onL (run_push _ _)) (ok_bind (run_get _) ?_)
    exact ok_bind (run_onL (run_push _ _)) (run_onL (run_luaSettable E (arrayTable_metatable _ i)))
  refine ensures_onL ((luaSetglobal_rule E _ _).mono ?_ ?_)
  · exact fun _ l ⟨heap', same, assigned⟩ => ⟨heap', assigned, by rw [same]⟩
  · exact fun e l raised => ⟨⟨e, rfl, raised⟩, [], l, by simp [Dll.note]⟩

/-- The same, with the ways an assignment can go as alternatives. -/
theorem storePUser_outcome (stack : List TValue) (heap : Heap σ) :
    Ensures (storePUser E) (s.withL ⟨stack, heap⟩)
      (fun _ t => ∃ heap', Assigned E "gPUser" (.table heap.bound) (heap.alloc (userTable s.host))
        heap' ∧ t = s.withL ⟨stack, heap'⟩) (Interrupted s) :=
  (storePUser_assigns E stack heap).mono
    (fun _ _ ⟨heap', done, same⟩ => ⟨heap', assigned_of_assign E done, same⟩) fun _ _ stop => stop

/-- Where the start of a session leads once the script is open. -/
def SessionStarted (s t : Dll σ) : Prop :=
  ∃ stack heap heap₁ u, s.L = some ⟨stack, heap⟩ ∧
    Assigned E "gPUser" (.table heap.bound) (heap.alloc (userTable s.host)) heap₁ ∧
    Started E s stack heap₁ u ∧
    t = { u with
      balanced := u.balanced && u.L.all fun l => decide (l.gettop = (stack.length : Int) - 1) }

/-- The start of a session: `gPUser` is assigned, then `gSimStart` is called in
the heap that this leaves, and last the stack is compared with its height
before. -/
theorem startSession_outcome (reads : Reads E.toCLib p (.result .gSimStart)) {l : LuaState σ}
    (live : s.L = some l) (fit : s.CountsFit) :
    EnsuresIf (Dll.Meets p) (startSession E) s (fun _ t => SessionStarted E s t)
      (Interrupted s) := by
  obtain ⟨stack, heap⟩ := l
  rw [← Dll.withL_self live]
  refine .step (run_height (l := ⟨stack, heap⟩)) ?_
  rw [Dll.withL_self live]
  have assign := storePUser_outcome E (s := s) stack heap
  rw [Dll.withL_self live] at assign
  refine assign.bind_if fun _ t ⟨heap₁, assigned, same⟩ => ?_
  subst same
  -- the bar is the height at the entry, so the pops of the start can reach down to it
  refine (startScript_outcome E reads fit (Int.le_refl _)).bind (fun _ => ?_) fun _ u started => ?_
  · exact reflects_of_grows (.check growing.toFrame _)
  · exact .of_ok (run_check _ u) fun _ => ⟨stack, heap, heap₁, u, live, assigned, started, rfl⟩

/-- What is noted before the script of the session is opened. -/
def Event.OfPreparation (e : Event) : Prop := e.OfQuery ∨ e.OfConsole

/-- A start begins as an error, until the script says otherwise. -/
def Dll.beginning (s : Dll σ) : Dll σ :=
  { s with
    gERROR := 1
    host := { s.host with pOutput := Function.update s.host.pOutput 0 plError } }

/-- The state of a start whose names have been queried. -/
structure Prepared (s t : Dll σ) : Prop where
  closed : t.L = none
  balanced : t.balanced = s.balanced
  gERROR : t.gERROR = 1
  host : t.host = s.beginning.host
  gNumInputs : t.gNumInputs = s.gNumInputs
  gNumOutputs : t.gNumOutputs = s.gNumOutputs
  gCSimStartOverride : t.gCSimStartOverride = s.gCSimStartOverride
  grows : Grows Event.OfPreparation s t

/-- Where the deferred start leads: there is no memory for the script, or it is
opened and the session starts in it. -/
def StartDone (s t : Dll σ) : Prop :=
  (∃ u, Prepared s u ∧ E.luaOpen u.epoch = none ∧ t = { u with epoch := u.epoch + 1 }) ∨
    ∃ u v, Prepared s u ∧ Opened E .session u v ∧ SessionStarted E v t

/-- The deferred start from a closed script: the names are asked, a state is
opened for the session, and the session starts in it. A stop comes from the
script alone, and the checks of the stack made up to there are the old ones. -/
theorem cSimStartFlaw_steps (reads : Reads E.toCLib p (.result .gSimStart)) (closed : s.L = none)
    (fit : s.CountsFit) :
    EnsuresIf (Dll.Meets p) (cSimStartFlaw E) s (fun _ t => StartDone E s t)
      (Orderly s) := by
  refine .step (run_setError 1 s) (.step (t := s.beginning) rfl ?_)
  refine (consoleStart_outcome _).bind_if fun _ t only => ?_
  have fit' : t.CountsFit := fit.of_counts only.gNumInputs only.gNumOutputs
  have kept : t.balanced = s.balanced := only.balanced
  refine ((queryMarkers_orderly E (only.L.trans closed) fit').mono (fun _ _ h => h)
    fun _ _ stop => ⟨stop.1, stop.2.trans kept⟩).bind_if fun _ u querying => ?_
  have shown : Grows Event.OfPreparation s.beginning t := only.trace.mono fun _ => Or.inr
  have asked : Grows Event.OfPreparation t u := querying.only.2.mono fun _ => Or.inl
  have start : Grows Event.OfPreparation s s.beginning := .of_same rfl rfl
  have prepared : Prepared s u :=
    { closed := querying.closed
      balanced := querying.balanced.trans kept
      gERROR := querying.only.1.gERROR.trans only.gERROR
      host := querying.only.1.host.trans only.host
      gNumInputs := querying.only.1.gNumInputs.trans only.gNumInputs
      gNumOutputs := querying.only.1.gNumOutputs.trans only.gNumOutputs
      gCSimStartOverride := querying.only.1.gCSimStartOverride.trans only.gCSimStartOverride
      grows := start.trans (shown.trans asked) }
  refine (openLuaScript_closed E querying.closed .session).bind_if fun opened v ht => ?_
  -- without memory for a state the start ends here, with the flag still up
  refine .ite (fun yes => ?_) fun no => .pure fun _ => ?_
  · rw [if_pos yes] at ht
    have start : EnsuresIf (Dll.Meets p) (startSession E) v
        (fun _ t => SessionStarted E v t) (Interrupted v) := by
      obtain ⟨stack, heap, chunk, noted, rfl⟩ := ht
      exact startSession_outcome E reads rfl
        (fit.of_counts prepared.gNumInputs prepared.gNumOutputs)
    refine start.mono (fun _ w started => .inr ⟨u, v, prepared, ht, started⟩) ?_
    rintro e w ⟨raised, events, l, rfl⟩
    obtain ⟨stack, heap, chunk, noted, rfl⟩ := ht
    exact ⟨raised, prepared.balanced⟩
  · rw [if_neg no] at ht
    exact .inl ⟨u, prepared, ht.1, ht.2⟩

end Start

/-! ### The first call and the later ones -/

/-- What a step does once the start is settled: it reports the error, or it
exchanges data with the script. -/
inductive StepDone (s : Dll σ) : Dll σ → Prop where
  | reported {u : Dll σ} (only : ConsoleOnly s u) (error : u.gERROR ≠ 0) :
      StepDone s
        { u with host := { u.host with pOutput := Function.update u.host.pOutput 0 plError } }
  | exchanged {u v : Dll σ} {stack : List TValue} {heap : Heap σ} (only : ConsoleOnly s u)
      (fine : u.gERROR = 0) (live : u.L = some ⟨stack, heap⟩)
      (exchanged : Exchanged E u stack heap v) :
      StepDone s { v with
        balanced := v.balanced && v.L.all fun l => decide (l.gettop = (stack.length : Int) - 1) }

section Calculate

variable {s : Dll σ}

/-- `CCalculateEx` after the start: the console, and then the error pin or the
data exchange. The script is touched in the second case only, which is why it
has to be open only while no error is flagged. -/
theorem runStep_outcome (reads : Reads E.toCLib p (.result .gCalculate)) (fit : s.CountsFit)
    (live : s.gERROR = 0 → s.L.isSome) :
    EnsuresIf (Dll.Meets p) (runStep E) s (fun _ t => StepDone E s t) (Orderly s) := by
  refine (consoleStep_outcome s).bind_if fun _ u only => .step (run_get u) (.ite (fun error => ?_)
    fun fine => ?_)
  · exact .of_ok (run_setPOutput 0 plError u) fun _ => .reported only error
  · have zero : u.gERROR = 0 := by simpa using fine
    obtain ⟨⟨stack, heap⟩, opened⟩ := Option.isSome_iff_exists.mp (live (only.gERROR ▸ zero))
    have here : u.L = some ⟨stack, heap⟩ := only.L.trans opened
    have step := calculate_outcome E reads
      (fit.of_counts only.gNumInputs only.gNumOutputs) stack heap
    rw [Dll.withL_self here] at step
    refine step.mono ?_ ?_
    · rintro _ t ⟨v, exchanged, rfl⟩
      exact .exchanged only zero here exchanged
    · rintro e t ⟨raised, events, l, rfl⟩
      exact ⟨raised, only.balanced⟩

/-- A start that clears the error flag has the script open: the flag was set
before anything was tried, and nothing but `startScript` clears it. -/
theorem StartDone.live {t : Dll σ} (h : StartDone E s t) : t.gERROR = 0 → t.L.isSome := by
  rcases h with ⟨u, prepared, _, rfl⟩ | ⟨u, v, _, _, stack, heap, heap₁, w, _, _, started, rfl⟩
  · intro zero
    exact absurd (prepared.gERROR.symm.trans zero) (by decide)
  · intro _
    cases started <;> rfl

/-- The channel counts stay what they are through a session. -/
abbrev SameCounts (s t : Dll σ) : Prop :=
  t.gNumInputs = s.gNumInputs ∧ t.gNumOutputs = s.gNumOutputs

/-- The start asks for the names of the channels, never for their number. -/
theorem StartDone.counts {t : Dll σ} (h : StartDone E s t) : SameCounts s t := by
  rcases h with ⟨u, prepared, _, rfl⟩ |
    ⟨u, v, prepared, ⟨_, _, _, _, rfl⟩, stack, heap, heap₁, w, _, _, started, rfl⟩
  · exact ⟨prepared.gNumInputs, prepared.gNumOutputs⟩
  · cases started
    all_goals exact ⟨prepared.gNumInputs, prepared.gNumOutputs⟩

/-- A step adds to the record: what was noted stays, and new are the console,
the call and its reply. -/
theorem StepDone.grows {t : Dll σ} (h : StepDone E s t) : Grows (fun _ => True) s t := by
  cases h with
  | reported only _ => exact (only.trace.mono fun _ _ => trivial).trans (.of_same rfl rfl)
  | @exchanged u v stack heap only _ _ exchanged =>
      refine (only.trace.mono fun _ _ => trivial).trans ?_
      have called : Grows (fun _ => True) u (u.called .gCalculate (stepText u)) :=
        .of_note u fun _ _ => trivial
      cases exchanged with
      | missing => exact (Grows.of_note u fun _ _ => trivial).trans (.of_same rfl rfl)
      | other => exact called.trans ((Grows.of_note _ fun _ _ => trivial).trans (.of_same rfl rfl))
      | stored => exact called.trans ((Grows.of_note _ fun _ _ => trivial).trans (.of_same rfl rfl))

/-- A step does not touch the counts, which belong to `CNumInputsEx` and
`CNumOutputsEx`. -/
theorem StepDone.counts {t : Dll σ} (h : StepDone E s t) : SameCounts s t := by
  cases h with
  | reported only => exact ⟨only.gNumInputs, only.gNumOutputs⟩
  | exchanged only _ _ exchanged =>
      cases exchanged
      all_goals exact ⟨only.gNumInputs, only.gNumOutputs⟩

/-- A step after the start does not ask for another one: `gCSimStartOverride` is
set by `CSimStart` alone. -/
theorem StepDone.settled {t : Dll σ} (h : StepDone E s t) :
    t.gCSimStartOverride = s.gCSimStartOverride := by
  cases h with
  | reported only => exact only.gCSimStartOverride
  | exchanged only _ _ exchanged =>
      cases exchanged
      all_goals exact only.gCSimStartOverride

/-- A call of `CCalculateEx` that finds the start settled. The test of the
override is false, and the call is its second half. -/
theorem cCalculateEx_later (reads : Reads E.toCLib p (.result .gCalculate)) (fit : s.CountsFit)
    (settled : s.gCSimStartOverride = 0) (live : s.gERROR = 0 → s.L.isSome) :
    EnsuresIf (Dll.Meets p) (cCalculateEx E) s (fun _ t => StepDone E s t) (Orderly s) := by
  have noStart : startOverride E s = .ok ⟨⟩ s :=
    ok_bind (run_get s) (ok_ite_false (by simpa using settled) rfl)
  exact .step noStart (runStep_outcome E reads fit live)

/-- The state with the start made. -/
def Dll.settled (s : Dll σ) : Dll σ := { s with gCSimStartOverride := 0 }

/-- The first call of a session makes the start and then a step. -/
def FirstDone (p : ReplyCondition) (s t : Dll σ) : Prop :=
  ∃ u, StartDone E s u ∧ u.Meets p ∧ StepDone E u.settled t

/-- The call that makes the start does not touch the counts either, so what the
host was told of them holds from the start to the stop. -/
theorem FirstDone.counts {t : Dll σ} (h : FirstDone E p s t) : SameCounts s t := by
  obtain ⟨u, start, _, step⟩ := h
  exact ⟨(step.counts E).1.trans (start.counts E).1, (step.counts E).2.trans (start.counts E).2⟩

/-- The call that makes the start, and goes on with a step. If the script stops
it, the checks of the stack are those of the part that was reached: none of this
call if it was the start, those of the start if it was the step. -/
theorem cCalculateEx_first (readsStart : Reads E.toCLib p (.result .gSimStart))
    (reads : Reads E.toCLib p (.result .gCalculate)) (fit : s.CountsFit)
    (pending : s.gCSimStartOverride ≠ 0) (closed : s.L = none) :
    EnsuresIf (Dll.Meets p) (cCalculateEx E) s (fun _ t => FirstDone E p s t)
      (fun e t => e.Raised ∧ ∃ u, (u = s ∨ StartDone E s u ∧ u.Meets p) ∧
        t.balanced = u.balanced) := by
  have start : EnsuresIf (Dll.Meets p) (startOverride E) s
      (fun _ t => ∃ u, (StartDone E s u ∧ u.Meets p) ∧ t = u.settled)
      (fun e t => e.Raised ∧ ∃ u, (u = s ∨ StartDone E s u ∧ u.Meets p) ∧
        t.balanced = u.balanced) := by
    refine .step (run_get s) (.ite (fun _ => ?_) fun no => absurd pending no)
    refine ((cSimStartFlaw_steps E readsStart closed fit).keep.mono (fun _ _ h => h)
      fun e t ⟨stop, _⟩ => ⟨stop.1, s, .inl rfl, stop.2⟩).bind (fun _ => ?_) fun _ u done => ?_
    · exact Preserves.modify fun _ h => h
    · exact .of_ok (run_modify _ u) fun _ => ⟨u, done, rfl⟩
  refine start.bind (fun _ => ?_) fun _ t ⟨u, done, same⟩ => ?_
  · exact reflects_of_grows (runStep_within E Grows.entryFrame.toSessionFrame)
  · subst same
    have counts := done.1.counts E
    refine (runStep_outcome E (s := u.settled) reads (fit.of_counts counts.1 counts.2)
      (done.1.live E)).mono ?_ ?_
    · exact fun _ t step => ⟨u, done.1, done.2, step⟩
    · exact fun e t stop => ⟨stop.1, u, .inr done, stop.2⟩

end Calculate

/-! ### The stop -/

/-- The outcomes of reading `gPUser` back. -/
inductive Restored (s : Dll σ) (stack : List TValue) (heap : Heap σ) : Dll σ → Prop where
  | stored {v : TValue} {heap' : Heap σ}
      (looked : Looked E heap.globals (.string (lit "gPUser")) heap v heap')
      (fits : (replyOf heap' v).FitsPUser E.toCLib) :
      Restored s stack heap
        (Dll.withL { s.replied .gPUser (replyOf heap' v) with
          host := s.host.stored (Host.storePUser E.toCLib (replyOf heap' v).elem) 0 100 }
          ⟨stack, heap'⟩)
  | other {v : TValue} {heap' : Heap σ}
      (looked : Looked E heap.globals (.string (lit "gPUser")) heap v heap')
      (other : v.type ≠ .table) :
      Restored s stack heap ((s.replied .gPUser (replyOf heap' v)).withL ⟨v :: stack, heap'⟩)

section Stop

variable {s : Dll σ} {stack : List TValue} {heap : Heap σ}

/-- A `gPUser` that fits is stored whole, and popped. The loop reads 100
elements, from index 1 to 100, into the cells 0 to 99. -/
theorem run_takePUser {v : TValue} (fits : (replyOf heap v).FitsPUser E.toCLib) :
    (emitReply .gPUser >>= fun _ => takeTable (stack.length - 1) 0 (fun _ => 100)
        (readPUser E (stack.length - 1)) (pure ())) (s.withL ⟨v :: stack, heap⟩) =
      .ok ⟨⟩ (Dll.withL { s.replied .gPUser (replyOf heap v) with
        host := s.host.stored (Host.storePUser E.toCLib (replyOf heap v).elem) 0 100 }
          ⟨stack, heap⟩) := by
  obtain ⟨r, rfl, plain, numbers⟩ := fitsPUser_table fits
  exact ok_bind (run_emitReply _) (run_takeTable E plain 0 (fun _ => 100) (Int.le_refl _) (· + 1)
    (fun i => storeNumber E (stack.length - 1) (setPUser i) (pure ())) _ (pure ())
    fun i _ high => readPUser_stores E (numbers i high))

/-- Reading `gPUser` back: the lookup may run a metamethod, and what it gives is
read if it is a table. Anything else is left on the stack, for `lua_close` to
clear. -/
theorem restorePUser_outcome (reads : Reads E.toCLib p .gPUser) (stack : List TValue)
    (heap : Heap σ) :
    EnsuresIf (Dll.Meets p) (restorePUser E) (s.withL ⟨stack, heap⟩)
      (fun _ t => Restored E s stack heap t) (Interrupted s) := by
  refine .step (run_height (l := ⟨stack, heap⟩)) (.step (run_onL (run_push _ _)) ?_)
  have lookup : Ensures (onL (luaGettable E globalsIndex))
      (s.withL ⟨.string (cstr (lit "gPUser")) :: stack, heap⟩)
      (fun _ t => ∃ v heap', t = s.withL ⟨v :: stack, heap'⟩ ∧
        Looked E heap.globals (.string (lit "gPUser")) heap v heap') (Interrupted s) := by
    refine ensures_onL ((luaGettable_globals_rule E _).mono ?_ ?_)
    · rintro _ l ⟨v, heap', rfl, looked⟩
      exact ⟨v, heap', rfl, looked⟩
    · exact fun e l raised => ⟨⟨e, rfl, raised⟩, [], l, by simp [Dll.note]⟩
  refine lookup.bind_if fun _ t outcome => ?_
  obtain ⟨v, heap', rfl, looked⟩ := outcome
  refine EnsuresIf.reply reads (reflects_of_grows (takeTable_within growing (by simp) _ _ _
    (readPUser_within E growing (by simp) _) (.pure growing.toFrame _))) fun readable => ?_
  -- the source flags no error here: a value of another type is passed over
  by_cases table : v.type = .table
  · have fits := readable (replyOf_isTable table)
    exact .of_ok (run_takePUser E fits) fun _ => .stored looked fits
  · exact .of_ok (ok_bind (run_emitReply _) (takeTable_other table rfl)) fun _ =>
      .other looked table

/-- The outcomes of calling `gSimStop`. -/
inductive StopCalled (s : Dll σ) (stack : List TValue) (heap : Heap σ) : Dll σ → Prop where
  | called {values : List TValue} {heap' : Heap σ}
      (answered : Answered E s .gSimStop dummyText heap values heap') :
      StopCalled s stack heap ((s.called .gSimStop dummyText).withL ⟨stack, heap'⟩)
  | missing {v : TValue} {heap' : Heap σ} (notFound : NotFound E .gSimStop heap v heap') :
      StopCalled s stack heap
        (Dll.withL { s.replied (.result .gSimStop) .missing with gERROR := 1 } ⟨v :: stack, heap'⟩)

/-- `gSimStop` is called without results, or its absence is noted and flagged;
the stop goes on either way. -/
theorem callStop_outcome (fit : s.CountsFit) (stack : List TValue) (heap : Heap σ) :
    Ensures (callStop E) (s.withL ⟨stack, heap⟩) (fun _ t => StopCalled E s stack heap t)
      (Interrupted s) := by
  refine (callHook_outcome E .gSimStop stringDummy_pushes fit 0 stack heap).bind
    fun found t h => ?_
  cases found with
  | false =>
      obtain ⟨v, heap', notFound, rfl⟩ := h
      exact .of_ok rfl (.missing notFound)
  | true =>
      obtain ⟨values, heap', answered, rfl⟩ := h
      have none : adjustResults 0 values = [] := by simp [adjustResults]
      rw [none]
      exact .of_ok rfl (.called answered)

/-- Where the part of the stop that needs the script leads. -/
def ScriptStopped (s t : Dll σ) : Prop :=
  ∃ stack heap stack' heap' u, s.L = some ⟨stack, heap⟩ ∧ StopCalled E s stack heap u ∧
    u.L = some ⟨stack', heap'⟩ ∧ Restored E u stack' heap' t

/-- A stop without an error: `gSimStop`, and then `gPUser` in the heap it left.
An error of the script ends it in either of the two, with the checks of the
stack as they were. -/
theorem stopScript_outcome (reads : Reads E.toCLib p .gPUser) {l : LuaState σ}
    (live : s.L = some l) (fine : s.gERROR = 0)
    (fit : s.CountsFit) :
    EnsuresIf (Dll.Meets p) (stopScript E) s (fun _ t => ScriptStopped E s t)
      (fun e t => e.Raised ∧ t.balanced = s.balanced) := by
  obtain ⟨stack, heap⟩ := l
  have interrupted : ∀ {u : Dll σ} {e : Stop} {t : Dll σ}, u.balanced = s.balanced →
      Interrupted u e t → e.Raised ∧ t.balanced = s.balanced := by
    rintro u e t kept ⟨raised, events, l, rfl⟩
    exact ⟨raised, kept⟩
  refine .step (run_get s) (.ite (fun _ => ?_) fun no => absurd fine no)
  have stop := callStop_outcome E fit stack heap
  rw [Dll.withL_self live] at stop
  refine (stop.mono (fun _ _ h => h) fun _ _ => interrupted rfl).bind_if fun _ t called => ?_
  have restore : ∀ {stack' heap'}, t.L = some ⟨stack', heap'⟩ → t.balanced = s.balanced →
      EnsuresIf (Dll.Meets p) (restorePUser E) t (fun _ t => ScriptStopped E s t)
        (fun e t => e.Raised ∧ t.balanced = s.balanced) := by
    intro stack' heap' here kept
    have run := restorePUser_outcome E (s := t) reads stack' heap'
    rw [Dll.withL_self here] at run
    exact run.mono
      (fun _ _ restored => ⟨stack, heap, stack', heap', t, live, called, here, restored⟩)
      fun _ _ => interrupted kept
  -- with or without `gSimStop`, `gPUser` is read back from what lies there now
  cases called with
  | called evolves => exact restore rfl rfl
  | missing evolves => exact restore rfl rfl

/-- The state of a script that was just closed. -/
def Dll.closed (s : Dll σ) : Dll σ :=
  { s.note [.luaClose] with L := none, epoch := s.epoch + 1 }

/-- What a stop does: with an error it only closes the script, if it is open. -/
inductive StopDone (s : Dll σ) : Dll σ → Prop where
  | skipped {u t : Dll σ} (error : s.gERROR ≠ 0)
      (close : u = s.closed ∨ s.L = none ∧ u = s) (only : ConsoleOnly u t) : StopDone s t
  | stopped {u t : Dll σ} (fine : s.gERROR = 0) (stopped : ScriptStopped E s u)
      (only : ConsoleOnly u.closed t) : StopDone s t

theorem run_closeLuaScript {l : LuaState σ} (live : s.L = some l) :
    closeLuaScript s = .ok ⟨⟩ s.closed := by
  unfold closeLuaScript
  rw [run_modify, if_pos (by simp [live])]
  rfl

/-- The script is still open when both are done. -/
theorem ScriptStopped.live {t : Dll σ} (h : ScriptStopped E s t) : ∃ l, t.L = some l := by
  obtain ⟨_, _, _, _, _, _, _, _, restored⟩ := h
  cases restored <;> exact ⟨_, rfl⟩

/-- What the stop does with the globals that a session keeps. -/
theorem ScriptStopped.kept {t : Dll σ} (h : ScriptStopped E s t) :
    SameCounts s t ∧ t.balanced = s.balanced := by
  obtain ⟨stack, heap, stack', heap', u, _, called, _, restored⟩ := h
  have first : SameCounts s u ∧ u.balanced = s.balanced := by
    cases called <;> exact ⟨⟨rfl, rfl⟩, rfl⟩
  cases restored
  all_goals exact first

/-- A stop keeps the counts, and passes every check of the stack. -/
theorem StopDone.kept {t : Dll σ} (h : StopDone E s t) :
    SameCounts s t ∧ t.balanced = s.balanced := by
  cases h with
  | skipped _ close only =>
      obtain rfl | ⟨_, rfl⟩ := close
      all_goals exact ⟨⟨only.gNumInputs, only.gNumOutputs⟩, only.balanced⟩
  | stopped _ stopped only =>
      obtain ⟨⟨inputs, outputs⟩, balanced⟩ := stopped.kept E
      exact ⟨⟨only.gNumInputs.trans inputs, only.gNumOutputs.trans outputs⟩,
        only.balanced.trans balanced⟩

theorem closing_outcome {l : LuaState σ} (live : s.L = some l) {A : Stop → Dll σ → Prop} :
    Ensures (closeLuaScript >>= fun _ => consoleStop) s (fun _ t => ConsoleOnly s.closed t) A :=
  .step (run_closeLuaScript live) ((consoleStop_outcome s.closed).mono (fun _ _ h => h.1)
    fun _ _ no => no)

/-- With an error the stop needs no script. -/
theorem cSimStop_skipped (error : s.gERROR ≠ 0) {A : Stop → Dll σ → Prop} :
    Ensures (cSimStop E) s
      (fun _ t => ∃ u, (u = s.closed ∨ s.L = none ∧ u = s) ∧ ConsoleOnly u t) A := by
  have skip : stopScript E s = .ok ⟨⟩ s := ok_bind (run_get s) (ok_ite_false error rfl)
  refine .step skip (.step (t := if s.L.isSome then s.closed else s) rfl ?_)
  refine (consoleStop_outcome _).mono (fun _ t ⟨only, _⟩ => ⟨_, ?_, only⟩) fun _ _ h => h
  cases opened : s.L with
  | none => exact .inr ⟨rfl, rfl⟩
  | some l => exact .inl rfl

/-- `CSimStop` as a whole: the script part if no error is flagged, then the state is
closed and the console with it. -/
theorem cSimStop_steps (reads : Reads E.toCLib p .gPUser) (fit : s.CountsFit)
    (live : s.gERROR = 0 → s.L.isSome) :
    EnsuresIf (Dll.Meets p) (cSimStop E) s (fun _ t => StopDone E s t)
      (fun e t => e.Raised ∧ t.balanced = s.balanced) := by
  by_cases fine : s.gERROR = 0
  · obtain ⟨l, opened⟩ := Option.isSome_iff_exists.mp (live fine)
    refine (stopScript_outcome E reads opened fine fit).bind (fun _ => ?_) fun _ u stopped => ?_
    · exact reflects_of_grows (closing_within Grows.entryFrame.toSessionFrame)
    · obtain ⟨l', here⟩ := stopped.live E
      exact ((closing_outcome here).mono (fun _ t only => .stopped fine stopped only)
        fun _ _ h => h).conditional
  · exact ((cSimStop_skipped E fine).mono (fun _ t ⟨u, close, only⟩ => .skipped fine close only)
      fun _ _ h => h).conditional

end Stop

end ProfiLua
