import ProfiLua.Dll.Call
import ProfiLua.Dll.Session

/-!
Opening the script and asking it for names, with `L` closed before.

Whatever the script does, a query can only be stopped by an error it raises, and
it keeps the stack discipline (`queryMarkers_orderly`).
-/

namespace ProfiLua

open Program

variable {σ : Type} (E : Env σ)

/-! ### Opening -/

/-- What opening the script notes: the chunk runs unless the file could not be
loaded. -/
def ChunkNoted (purpose : Purpose) (file : UChar) (chunk : List Event) : Prop :=
  chunk = [.activation (.chunk purpose) none] ∨
    chunk = [] ∧ ∃ (heap : Heap σ), (E.load file heap).1.type ≠ .function

/-- The state after a closed script was opened. -/
def Opened (purpose : Purpose) (s t : Dll σ) : Prop :=
  ∃ stack heap chunk, ChunkNoted E purpose s.gFileNum chunk ∧
    t = (({ s with epoch := s.epoch + 1 }.note [.luaOpen]).note chunk).withL ⟨stack, heap⟩

/-- With no state open, `lua_open` decides: no memory, and only the epoch has moved
on, or a new state with the libraries. -/
theorem openState_closed {s : Dll σ} (closed : s.L = none) :
    openState E s = match E.luaOpen s.epoch with
      | none => .ok false { s with epoch := s.epoch + 1 }
      | some heap => .ok true (({ s with epoch := s.epoch + 1 }.note [.luaOpen]).withL
          ⟨[.nil], E.luaLOpenlibs heap⟩) := by
  unfold openState
  refine (run_bind_ok (run_get s) _).trans ?_
  rw [if_neg (by simp [closed])]
  unfold luaOpen
  refine (run_bind_ok (run_modify _ s) _).trans ((run_bind_ok (run_get _) _).trans ?_)
  cases E.luaOpen s.epoch with
  | none => rw [if_neg (by simp [closed])]; rfl
  | some heap => rfl

/-- The note that the chunk runs is taken exactly if the file gave a function.
-/
theorem emitChunk_outcome (purpose : Purpose) (s : Dll σ) (stack : List TValue) (heap : Heap σ)
    {A : Stop → Dll σ → Prop} :
    Ensures (emitChunk purpose)
      (s.withL ⟨(E.load s.gFileNum heap).1 :: stack, (E.load s.gFileNum heap).2⟩)
      (fun _ t => ∃ chunk, ChunkNoted E purpose s.gFileNum chunk ∧
        t = (s.note chunk).withL ⟨(E.load s.gFileNum heap).1 :: stack, (E.load s.gFileNum heap).2⟩)
      A := by
  refine .of_ok (run_emit _ _) ?_
  cases load : (E.load s.gFileNum heap).1 with
  | function f => exact ⟨_, .inl rfl, rfl⟩
  | _ => exact ⟨[], .inr ⟨rfl, heap, by rw [load]; simp [TValue.type]⟩, rfl⟩

/-- Loading and running the chunk cannot stop the DLL: the call is protected,
and an error of either is a message on the stack. -/
theorem runChunk_outcome (purpose : Purpose) (s : Dll σ) (stack : List TValue) (heap : Heap σ)
    {A : Stop → Dll σ → Prop} :
    Ensures (runChunk E purpose) (s.withL ⟨stack, heap⟩)
      (fun _ t => ∃ stack' heap' chunk, ChunkNoted E purpose s.gFileNum chunk ∧
        t = (s.note chunk).withL ⟨stack', heap'⟩) A := by
  have load : onL (luaLLoadfile E s.gFileNum) (s.withL ⟨stack, heap⟩) =
      .ok ⟨⟩ (s.withL ⟨(E.load s.gFileNum heap).1 :: stack, (E.load s.gFileNum heap).2⟩) := rfl
  refine .step (run_get _) (.step load ?_)
  refine (emitChunk_outcome E purpose s stack heap).bind fun _ t ⟨chunk, noted, same⟩ => ?_
  rw [same]
  -- what the protected call leaves above the stack is not looked at
  exact ensures_onL ((luaPcall_rule E _).mono (fun _ l ⟨results, heap', last⟩ =>
    ⟨results ++ stack, heap', chunk, noted, by rw [last]⟩) fun _ _ h => h)

/-- Opening a closed script cannot stop. It fails only without memory for a
state. -/
theorem openLuaScript_closed {s : Dll σ} (closed : s.L = none) (purpose : Purpose)
    {A : Stop → Dll σ → Prop} :
    Ensures (openLuaScript E purpose) s
      (fun opened t => if opened then Opened E purpose s t
        else E.luaOpen s.epoch = none ∧ t = { s with epoch := s.epoch + 1 }) A := by
  have opening := openState_closed E closed
  cases memory : E.luaOpen s.epoch with
  | none =>
      rw [memory] at opening
      exact .step opening (.ite (fun no => by simp at no) fun _ => .pure ⟨rfl, rfl⟩)
  | some heap =>
      rw [memory] at opening
      refine .step opening (.ite (fun _ => ?_) fun no => absurd rfl no)
      exact (runChunk_outcome E purpose _ _ _).bind fun _ t ⟨stack, heap', chunk, noted, same⟩ =>
        .pure ⟨stack, heap', chunk, noted, same⟩

/-! ### Names -/

/-- Only the script stopped it, and every check of the stack passed. -/
def Orderly (s : Dll σ) (e : Stop) (t : Dll σ) : Prop := e.Raised ∧ t.balanced = s.balanced

/-- An error raised while the script is asked leaves all checks of the stack
passed, as none has been made since. -/
theorem orderly_of_raised {s : Dll σ} {e : LuaStop} {l : LuaState σ} (raised : e.Raised) :
    Orderly s (.lua e) (s.withL l) :=
  ⟨⟨e, rfl, raised⟩, rfl⟩

/-- Setting a marker that exists. -/
def MarksOnly (mark : DllM σ PUnit) : Prop :=
  ∀ s, ∃ ins outs, mark s = .ok ⟨⟩ { s with gInStrMarker := ins, gOutStrMarker := outs }

theorem markInput_marksOnly {i : Nat} (inside : i < markerSize) (m : UChar) :
    MarksOnly (markInput (σ := σ) i m) := by
  intro s
  unfold markInput
  rw [if_pos inside]
  exact ⟨_, s.gOutStrMarker, rfl⟩

theorem markOutput_marksOnly {i : Nat} (inside : i < markerSize) (m : UChar) :
    MarksOnly (markOutput (σ := σ) i m) := by
  intro s
  unfold markOutput
  rw [if_pos inside]
  exact ⟨s.gInStrMarker, _, rfl⟩

section Names

variable {mark : DllM σ PUnit} {s : Dll σ} {stack : List TValue} {heap : Heap σ}

/-- Reading a name keeps the height of the stack. A number in its place is
turned into a text where it lies. -/
theorem readName_outcome (marks : MarksOnly mark) (v : TValue) {A : Stop → Dll σ → Prop} :
    Ensures (readName E mark) (s.withL ⟨v :: stack, heap⟩)
      (fun _ t => t.balanced = s.balanced ∧ ∃ v', t.L = some ⟨v' :: stack, heap⟩) A := by
  refine .step (run_onL run_luaIsstring) (.ite (fun _ => ?_) fun _ => .pure ⟨rfl, v, rfl⟩)
  obtain ⟨v', read⟩ : ∃ v', luaTostring E ⟨v :: stack, heap⟩ =
      .ok (v.text E.toCLib) ⟨v' :: stack, heap⟩ := run_luaTostring E
  refine .step (run_onL read) ?_
  have marking : Ensures (markString mark (cstr (v.text E.toCLib)))
      (s.withL ⟨v' :: stack, heap⟩)
      (fun _ t => t.balanced = s.balanced ∧ ∃ v', t.L = some ⟨v' :: stack, heap⟩) A := by
    refine .ite (fun _ => ?_) fun _ => .pure ⟨rfl, v', rfl⟩
    obtain ⟨ins, outs, run⟩ := marks (s.withL ⟨v' :: stack, heap⟩)
    exact .of_ok run ⟨rfl, v', rfl⟩
  exact marking.bind fun _ _ h => .pure h

/-- A name is asked for and forgotten; the value found in place of a missing
function stays, until the state is closed. -/
theorem askName_orderly (hook : Hook) (marks : MarksOnly mark) (channel : UChar) :
    Ensures (askName E hook mark channel) (s.withL ⟨stack, heap⟩)
      (fun _ t => t.balanced = s.balanced) (Orderly s) := by
  refine .step run_height (.step (run_onL (run_push _ _)) ?_)
  have lookup : Ensures (onL (luaGettable E globalsIndex))
      (s.withL ⟨.string (cstr (lit hook.name)) :: stack, heap⟩)
      (fun _ t => ∃ v heap', t = s.withL ⟨v :: stack, heap'⟩) (Orderly s) :=
    ensures_onL ((luaGettable_globals_rule E _).mono (fun _ l ⟨v, heap', same, _⟩ =>
      ⟨v, heap', by rw [same]⟩) fun e l raised => orderly_of_raised raised)
  refine lookup.bind fun _ t ⟨v, heap', same⟩ => ?_
  subst same
  refine .step (run_onL (run_luaHasType .function)) (.ite (fun _ => ?_) fun _ => .pure rfl)
  refine .step (run_onL (run_push _ _)) (.step (run_emit _ _) ?_)
  -- the call is not protected, so an error of the name function goes through to the host
  have call : ∀ events, Ensures (onL (luaCall E 1 1))
      ((s.note events).withL ⟨.number (.ofNat channel.toNat) :: v :: stack, heap'⟩)
      (fun _ t => ∃ u heap'', t = (s.note events).withL ⟨u :: stack, heap''⟩) (Orderly s) := by
    intro events
    refine ensures_onL ((luaCall_rule E v [.number (.ofNat channel.toNat)] rfl (by simp) 1).mono
      ?_ fun e l raised => orderly_of_raised raised)
    rintro _ l ⟨values, heap'', _, rfl⟩
    exact ⟨values.headD .nil, heap'', by rw [adjustResults_one]; rfl⟩
  refine (call _).bind fun _ t ⟨u, heap'', same⟩ => ?_
  subst same
  refine (readName_outcome E marks u).bind fun name t ⟨balanced, u', live⟩ => ?_
  rw [← Dll.withL_self live]
  exact .step (run_popAbove (Int.le_refl _)) (.pure balanced)

end Names

/-- Counts, flags and the host's arrays stay, and only queries are noted. -/
abbrev QueriesOnly (s t : Dll σ) : Prop := SameControl s t ∧ Grows Event.OfQuery s t

/-- What a query changes is a frame: the Lua state, the markers and the record. -/
theorem QueriesOnly.frame : NameFrame Event.OfQuery (QueriesOnly (σ := σ)) :=
  (SameControl.frame _).and (Grows.frame _)

/-- A name query with `L` closed. It opens a state of its own, asks in it and
closes it, and without memory it gives up at once. -/
theorem nameQuery_orderly (reserved : String) (hook : Hook)
    (hH : ∀ a, Event.OfQuery (.activation (.hook hook) a)) {mark : Nat → UChar → DllM σ PUnit}
    (frame : ∀ i c, Within .opened QueriesOnly (mark i c)) {channel : UChar}
    (marks : MarksOnly (mark channel.toNat 1)) {s : Dll σ} (closed : s.L = none) :
    Ensures (nameQuery E reserved hook mark channel) s
      (fun _ t => t.balanced = s.balanced ∧ t.L = none ∧ QueriesOnly s t) (Orderly s) := by
  have within : Within .closed QueriesOnly (nameQuery E reserved hook mark channel) :=
    nameQuery_within E QueriesOnly.frame.toOpeningFrame (fun _ h => h) (by simp) reserved hH frame
      channel
  have orderly : Ensures (nameQuery E reserved hook mark channel) s
      (fun _ t => t.balanced = s.balanced) (Orderly s) := by
    refine .ite (fun _ => .pure rfl) fun _ => ?_
    refine (openLuaScript_closed E closed .query).bind fun opened t ht => ?_
    refine .ite (fun yes => ?_) fun no => .pure ?_
    · rw [if_pos yes] at ht
      obtain ⟨stack, heap, chunk, _, rfl⟩ := ht
      refine (askName_orderly E hook marks channel).bind fun name u kept => ?_
      have close : Ensures closeLuaScript u (fun _ v => v.balanced = s.balanced) (Orderly s) := by
        refine .modify ?_
        split
        · exact kept
        · exact kept
      exact close.bind fun _ _ h => .pure h
    · rw [if_neg no] at ht
      rw [ht.2]
  exact (orderly.and (within s closed)).mono (fun _ _ h => h) fun _ _ h => h.1

/-- A channel that has a marker fits into an `unsigned char`, so the loops over
the channels ask for the channel they count to. -/
theorem toUInt8_toNat {i : Nat} (small : i < markerSize) : i.toUInt8.toNat = i := by
  simp only [markerSize] at small
  simp only [Nat.toUInt8, UInt8.toNat_ofNat']
  omega

/-- The name query of an input opens a state and closes it again, and only the
script can stop it. -/
theorem getInputName_orderly {i : Nat} (inside : i < markerSize) {s : Dll σ} (closed : s.L = none) :
    Ensures (getInputName E i.toUInt8) s
      (fun _ t => t.balanced = s.balanced ∧ t.L = none ∧ QueriesOnly s t) (Orderly s) :=
  nameQuery_orderly E "CONSOLE" .gInputName (fun _ => trivial)
    (fun i c => .markInput QueriesOnly.frame i c)
    (markInput_marksOnly (by rw [toUInt8_toNat inside]; exact inside) 1) closed

theorem getOutputName_orderly {i : Nat} (inside : i < markerSize) {s : Dll σ}
    (closed : s.L = none) :
    Ensures (getOutputName E i.toUInt8) s
      (fun _ t => t.balanced = s.balanced ∧ t.L = none ∧ QueriesOnly s t) (Orderly s) :=
  nameQuery_orderly E "ERROR" .gOutputName (fun _ => trivial)
    (fun i c => .markOutput QueriesOnly.frame i c)
    (markOutput_marksOnly (by rw [toUInt8_toNat inside]; exact inside) 1) closed

/-- What holds between the queries of a start that began in `s`. -/
structure Querying (s t : Dll σ) : Prop where
  balanced : t.balanced = s.balanced
  closed : t.L = none
  only : QueriesOnly s t

/-- Queries of one start after queries of the same start. -/
theorem Querying.trans {s t u : Dll σ} (h : Querying s t) (k : Querying t u) : Querying s u :=
  ⟨k.balanced.trans h.balanced, k.closed, QueriesOnly.frame.trans s t u h.only k.only⟩

/-- A stop after some queries is as orderly as the query that made it. -/
theorem Querying.orderly {s t u : Dll σ} {e : Stop} (h : Querying s t) (k : Orderly t e u) :
    Orderly s e u :=
  ⟨k.1, k.2.trans h.balanced⟩

theorem Querying.marked {s t : Dll σ} {mark : DllM σ PUnit} (h : Querying s t)
    (marks : MarksOnly mark) {A : Stop → Dll σ → Prop} :
    Ensures mark t (fun _ u => Querying s u) A := by
  obtain ⟨ins, outs, run⟩ := marks t
  exact .of_ok run (h.trans ⟨rfl, h.closed, QueriesOnly.frame.markers t ins outs⟩)

/-- One query of the start, with its note of the bytes copied. -/
theorem Querying.name {s t : Dll σ} {query : DllM σ Bytes} (h : Querying s t)
    (asked : Ensures query t
      (fun _ u => u.balanced = t.balanced ∧ u.L = none ∧ QueriesOnly t u) (Orderly t)) :
    Ensures (query >>= fun name => emit fun _ => [.dummy (name.length + 1)]) t
      (fun _ u => Querying s u) (Orderly s) := by
  refine (asked.mono (fun _ _ h => h) fun _ _ => h.orderly).bind
    fun name u ⟨bal, closed, only⟩ => ?_
  refine .of_ok (run_emit _ u) ((h.trans ⟨bal, closed, only⟩).trans ⟨rfl, closed, ?_⟩)
  exact QueriesOnly.frame.note u _ (by simp [Event.OfQuery])

/-- Setting the markers up again: all are cleared, then every input and every
output is asked for its name. Each query begins and ends with `L` closed. -/
theorem queryMarkers_orderly {s : Dll σ} (closed : s.L = none) (fit : s.CountsFit) :
    Ensures (queryMarkers E) s (fun _ t => Querying s t) (Orderly s) := by
  have start : Querying s s := ⟨rfl, closed, QueriesOnly.frame.refl s⟩
  have clear : Ensures (countUp 0 markerSize fun i => do
      markInput i 0
      markOutput i 0) s (fun _ t => Querying s t) (Orderly s) :=
    Ensures.countUp (fun _ => Querying s) (Nat.zero_le _) start fun i _ high t h =>
      (h.marked (markInput_marksOnly high 0)).bind fun _ u h =>
        h.marked (markOutput_marksOnly high 0)
  refine clear.bind fun _ t cleared => .step (run_get t) ?_
  have inputs : Ensures (countUp 0 t.gNumInputs.toNat fun i => do
      let name ← getInputName E i.toUInt8
      emit fun _ => [.dummy (name.length + 1)]) t (fun _ u => Querying s u) (Orderly s) := by
    refine Ensures.countUp (fun _ => Querying s) (Nat.zero_le _) cleared fun i _ high u h => ?_
    rw [cleared.only.1.gNumInputs] at high
    exact h.name (getInputName_orderly E (Nat.lt_of_lt_of_le high fit.inputs_le) h.closed)
  refine inputs.bind fun _ u asked => .step (run_get u) ?_
  refine Ensures.countUp (fun _ => Querying s) (Nat.zero_le _) asked fun i _ high v h => ?_
  rw [asked.only.1.gNumOutputs] at high
  exact h.name (getOutputName_orderly E (Nat.lt_of_lt_of_le high fit.outputs_le) h.closed)

end ProfiLua
