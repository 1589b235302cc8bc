import ProfiLua.Dll.Markers
import ProfiLua.Dll.Steps
import ProfiLua.Lua.Memory

/-!
The arrays of fixed size and the size hints.

The markers have a place for 100 channels, the buffer for a name at the start has
100 bytes, and `lua_createtable` takes `gNumInputs - 1` as a size. Nothing checks
what the script says against these; as long as it keeps to them, no call of the
host leaves an array, asks for a table of negative size or copies a name that is
too long (`bounds_along`).
-/

namespace ProfiLua

open Program

variable {σ α : Type} (E : Env σ)

/-! ### What is bounded -/

/-- `char dummy[100]`. -/
def dummySize : Nat := 100

/-- The DLL stopped for another reason than an index outside an array or a
negative size. -/
def Stop.InBounds (e : Stop) : Prop := e ≠ .outOfBounds ∧ e ≠ .lua .memory

instance (e : Stop) : Decidable e.InBounds :=
  inferInstanceAs (Decidable (e ≠ .outOfBounds ∧ e ≠ .lua .memory))

/-- How many bytes the event copies into `dummy`. -/
def Event.copied : Event → Nat
  | .dummy bytes => bytes
  | _ => 0

/-- Every name copied so far fits into the buffer, with its terminator. -/
def CopiesFit (s : Dll σ) : Prop := ∀ e ∈ s.trace, e.2.copied ≤ dummySize

instance (s : Dll σ) : Decidable (CopiesFit s) :=
  inferInstanceAs (Decidable (∀ e ∈ s.trace, e.2.copied ≤ dummySize))

/-- Events that copy nothing too long keep what was copied in bounds. -/
theorem CopiesFit.grows {s t : Dll σ} (fit : CopiesFit s)
    (grows : Grows (fun e => e.copied ≤ dummySize) s t) : CopiesFit t := by
  obtain ⟨_, gained, trace, short⟩ := grows
  intro e mem
  rw [trace] at mem
  rcases List.mem_append.mp mem with old | new
  · exact fit e old
  · exact (short e new).1

theorem CopiesFit.note {s : Dll σ} (fit : CopiesFit s) {events : List Event}
    (short : ∀ e ∈ events, e.copied ≤ dummySize) : CopiesFit (s.note events) :=
  fit.grows (.of_note s short)

/-- An invariant that sees the counts and the copies alone. -/
def Blind (I : Dll σ → Prop) : Prop :=
  ∀ s t, SameCounts s t → (CopiesFit s → CopiesFit t) → I s → I t

/-- Every channel has a marker. -/
structure Dll.ChannelsFit (s : Dll σ) : Prop where
  inputs_le : s.gNumInputs.toNat ≤ markerSize
  outputs_le : s.gNumOutputs.toNat ≤ markerSize

instance (s : Dll σ) : Decidable s.ChannelsFit :=
  decidable_of_iff (s.gNumInputs.toNat ≤ markerSize ∧ s.gNumOutputs.toNat ≤ markerSize)
    ⟨fun ⟨a, b⟩ => ⟨a, b⟩, fun ⟨a, b⟩ => ⟨a, b⟩⟩

/-- Every channel has a marker, and the names that were copied fit. A script without
`gSimStart` needs no more: it is never called with a table of the inputs. -/
structure Housed (s : Dll σ) : Prop where
  channels : s.ChannelsFit
  copies : CopiesFit s

/-- The counts fit, and so do the names that were copied. -/
structure Bounded (s : Dll σ) : Prop where
  counts : s.CountsFit
  copies : CopiesFit s

theorem Bounded.housed {s : Dll σ} (bounded : Bounded s) : Housed s :=
  ⟨⟨bounded.counts.inputs_le, bounded.counts.outputs_le⟩, bounded.copies⟩

/-- With the reserved input counted, the counts fit the loops as well as the arrays. -/
theorem Housed.bounded {s : Dll σ} (housed : Housed s) (counted : 1 ≤ s.gNumInputs.toNat) :
    Bounded s :=
  ⟨⟨counted, housed.channels.inputs_le, housed.channels.outputs_le⟩, housed.copies⟩

/-- What a simulation keeps: as long as no error is flagged the script is called, and
then the reserved input is counted. -/
structure InSession (s : Dll σ) : Prop where
  housed : Housed s
  counted : s.gERROR = 0 → 1 ≤ s.gNumInputs.toNat

theorem Bounded.inSession {s : Dll σ} (bounded : Bounded s) : InSession s :=
  ⟨bounded.housed, fun _ => bounded.counts.inputs_pos⟩

/-- Without an error, a session has all that its loops need. -/
theorem InSession.bounded {s : Dll σ} (going : InSession s) (fine : s.gERROR = 0) : Bounded s :=
  going.housed.bounded (going.counted fine)

theorem Housed.of_counts {s t : Dll σ} (housed : Housed s) (same : SameCounts s t)
    (fit : CopiesFit t) : Housed t := by
  obtain ⟨⟨inputs, outputs⟩, -⟩ := housed
  rw [← same.1] at inputs
  rw [← same.2] at outputs
  exact ⟨⟨inputs, outputs⟩, fit⟩

theorem Housed.blind : Blind (Housed (σ := σ)) := fun _ _ same keeps housed =>
  housed.of_counts same (keeps housed.copies)

theorem Bounded.blind : Blind (Bounded (σ := σ)) := fun _ _ same keeps bounded =>
  ⟨bounded.counts.of_counts same.1 same.2, keeps bounded.copies⟩

theorem CopiesFit.blind : Blind (CopiesFit (σ := σ)) := fun _ _ _ keeps fit => keeps fit

/-- The program keeps the invariant and stays in bounds. -/
abbrev Stays (I : Dll σ → Prop) (x : DllM σ α) : Prop := Maintains I Stop.InBounds x

section Parts

variable {I : Dll σ → Prop} (blind : Blind I)

include blind

/-- An API call that asks for no negative size stays in bounds, whatever else stops
it. -/
theorem Stays.onL {call : LuaM σ α} (modest : Modest call) : Stays I (onL call) := by
  refine .of_ensures fun s inv => ?_
  cases live : s.L with
  | none => exact .of_error (onL_null live call) ⟨⟨by simp, by simp⟩, inv⟩
  | some l =>
      cases run : call l with
      | ok a l' => exact .of_ok (onL_ok live run) (blind s _ ⟨rfl, rfl⟩ (fun h => h) inv)
      | error e l' =>
          have other : e ≠ .memory := ((modest.ensures trivial).error run).1
          refine .of_error (onL_error live run) ⟨⟨by simp, by simpa using other⟩, ?_⟩
          exact blind s _ ⟨rfl, rfl⟩ (fun h => h) inv

theorem Stays.update {f : Dll σ → Dll σ} (counts : ∀ s, SameCounts s (f s))
    (trace : ∀ s, (f s).trace = s.trace) : Stays I (modify f : DllM σ PUnit) :=
  .modify fun s inv => blind s _ (counts s) (fun fit => by rwa [CopiesFit, trace]) inv

theorem Stays.emit {events : Dll σ → List Event}
    (short : ∀ s, ∀ e ∈ events s, e.copied ≤ dummySize) : Stays I (emit events) :=
  .modify fun s inv => blind s _ ⟨rfl, rfl⟩ (fun fit => fit.note (short s)) inv

theorem Stays.check (ok : LuaState σ → Bool) : Stays I (check ok) :=
  Stays.update blind (fun _ => ⟨rfl, rfl⟩) fun _ => rfl

omit blind in
theorem Stays.height : Stays I (height (σ := σ)) := .get fun _ _ => .pure _

theorem Stays.popAbove (bar : Int) : Stays I (popAbove (σ := σ) bar) :=
  (Stays.onL blind (luaPop_modest 1)).bind fun _ => Stays.check blind _

theorem Stays.setError (error : UChar) : Stays I (setError (σ := σ) error) :=
  Stays.update blind (fun _ => ⟨rfl, rfl⟩) fun _ => rfl

theorem Stays.setPOutput (i : Nat) (d : LuaNumber) : Stays I (setPOutput (σ := σ) i d) :=
  Stays.update blind (fun _ => ⟨rfl, rfl⟩) fun _ => rfl

theorem Stays.setPUser (i : Nat) (d : LuaNumber) : Stays I (setPUser (σ := σ) i d) :=
  Stays.update blind (fun _ => ⟨rfl, rfl⟩) fun _ => rfl

theorem Stays.setPString (i : Nat) (text : Bytes) : Stays I (setPString (σ := σ) i text) :=
  Stays.update blind (fun _ => ⟨rfl, rfl⟩) fun _ => rfl

omit blind in
theorem Stays.inMarked {i : Nat} (inside : i < markerSize) : Stays I (inMarked (σ := σ) i) :=
  .ite (fun _ => .get fun _ _ => .pure _) fun no => absurd inside no

omit blind in
theorem Stays.outMarked {i : Nat} (inside : i < markerSize) : Stays I (outMarked (σ := σ) i) :=
  .ite (fun _ => .get fun _ _ => .pure _) fun no => absurd inside no

theorem Stays.markInput {i : Nat} (inside : i < markerSize) (mark : UChar) :
    Stays I (markInput (σ := σ) i mark) :=
  .ite (fun _ => Stays.update blind (fun _ => ⟨rfl, rfl⟩) fun _ => rfl) fun no => absurd inside no

theorem Stays.markOutput {i : Nat} (inside : i < markerSize) (mark : UChar) :
    Stays I (markOutput (σ := σ) i mark) :=
  .ite (fun _ => Stays.update blind (fun _ => ⟨rfl, rfl⟩) fun _ => rfl) fun no => absurd inside no

/-! ### Opening, closing and names -/

theorem openState_stays : Stays I (openState E) := by
  have opening : Stays I (luaOpen E) := by
    refine .modify fun s inv => ?_
    split
    · exact blind s _ ⟨rfl, rfl⟩ (fun fit => fit) inv
    · rename_i heap _
      refine blind s _ ⟨rfl, rfl⟩ (fun fit => ?_) inv
      exact CopiesFit.note (s := { s with L := some ⟨[.nil], heap⟩, epoch := s.epoch + 1 }) fit
        (by simp [Event.copied])
  refine .get fun s _ => .ite (fun _ => .pure _) fun _ => opening.bind fun _ => .get fun t _ => ?_
  refine .ite (fun _ => ?_) fun _ => .pure _
  exact (Stays.onL blind (.modify fun _ _ => trivial)).bind fun _ => .pure _

/-- Opening the script touches neither the counts nor the buffer. -/
theorem openLuaScript_stays (purpose : Purpose) : Stays I (openLuaScript E purpose) := by
  have chunk : Stays I (runChunk E purpose) := by
    refine .get fun s _ => (Stays.onL blind (luaLLoadfile_modest E _)).bind fun _ => ?_
    refine (Stays.emit blind fun s e mem => ?_).bind fun _ =>
      Stays.onL blind (luaPcall_modest E)
    split at mem
    · cases List.mem_singleton.mp mem
      exact Nat.zero_le _
    · simp at mem
  exact (openState_stays E blind).bind fun opened =>
    .ite (fun _ => chunk.bind fun _ => .pure _) fun _ => .pure _

theorem closeLuaScript_stays : Stays I (closeLuaScript (σ := σ)) := by
  refine .modify fun s inv => ?_
  split
  · refine blind s _ ⟨rfl, rfl⟩ (fun fit => ?_) inv
    have noted : CopiesFit (s.note [.luaClose]) := fit.note (by simp [Event.copied])
    exact noted
  · exact inv

theorem emitHook_stays (hook : Hook) : Stays I (emitHook (σ := σ) hook) := by
  refine Stays.emit blind fun s e mem => ?_
  split at mem
  · cases List.mem_singleton.mp mem
    exact Nat.zero_le _
  · cases List.mem_singleton.mp mem
    exact Nat.zero_le _

theorem emitReply_stays (source : Source) : Stays I (emitReply (σ := σ) source) := by
  refine Stays.emit blind fun s e mem => ?_
  split at mem
  · cases List.mem_singleton.mp mem
    exact Nat.zero_le _
  · simp at mem

/-- The name itself is copied by the caller; here only its marker is set. -/
theorem readName_stays {mark : DllM σ PUnit} (hm : Stays I mark) : Stays I (readName E mark) := by
  refine (Stays.onL blind (luaIsstring_modest _)).bind fun _ => .ite (fun _ => ?_) fun _ => .pure _
  refine (Stays.onL blind (luaTostring_modest E)).bind fun text => ?_
  have marking : Stays I (markString mark (cstr text)) := .ite (fun _ => hm) fun _ => .pure _
  exact marking.bind fun _ => .pure _

theorem askName_stays (hook : Hook) {mark : DllM σ PUnit} (hm : Stays I mark) (channel : UChar) :
    Stays I (askName E hook mark channel) := by
  refine Stays.height.bind fun bar => (Stays.onL blind (push_modest _)).bind fun _ => ?_
  refine (Stays.onL blind (luaGettable_modest E _)).bind fun _ => ?_
  refine (Stays.onL blind (luaHasType_modest _ _)).bind fun _ => .ite (fun _ => ?_) fun _ => .pure _
  refine (Stays.onL blind (push_modest _)).bind fun _ => ?_
  refine (emitHook_stays blind hook).bind fun _ => ?_
  refine (Stays.onL blind (luaCall_modest E 1 1)).bind fun _ => ?_
  refine (readName_stays E blind hm).bind fun name => ?_
  exact (Stays.popAbove blind bar).bind fun _ => .pure _

theorem nameQuery_stays (reserved : String) (hook : Hook) {mark : Nat → UChar → DllM σ PUnit}
    {channel : UChar} (hm : Stays I (mark channel.toNat 1)) :
    Stays I (nameQuery E reserved hook mark channel) := by
  refine .ite (fun _ => .pure _) fun _ => (openLuaScript_stays E blind .query).bind fun opened => ?_
  refine .ite (fun _ => ?_) fun _ => .pure _
  exact (askName_stays E blind hook hm channel).bind fun name =>
    (closeLuaScript_stays blind).bind fun _ => .pure _

/-- A query is in bounds if its channel has a marker. -/
theorem getInputName_stays {channel : UChar} (inside : channel.toNat < markerSize) :
    Stays I (getInputName E channel) :=
  nameQuery_stays E blind "CONSOLE" .gInputName (Stays.markInput blind inside 1)

theorem getOutputName_stays {channel : UChar} (inside : channel.toNat < markerSize) :
    Stays I (getOutputName E channel) :=
  nameQuery_stays E blind "ERROR" .gOutputName (Stays.markOutput blind inside 1)

end Parts

/-! ### Calling the script -/

/-- An input is looked up among the markers before it is pushed. -/
theorem pushInput_stays {marked : Nat → DllM σ PUnit} {i : Nat} (inside : i < markerSize)
    (hm : Stays Bounded (marked i)) : Stays Bounded (pushInput marked i) := by
  refine (Stays.inMarked inside).bind fun mark => .ite (fun _ => hm) fun _ => ?_
  exact .get fun s _ => Stays.onL Bounded.blind (push_modest _)

/-- The count of the inputs bounds the loop and the size hint. -/
theorem pushInputs_stays {marked : Nat → DllM σ PUnit} (hm : ∀ i, Stays Bounded (marked i)) :
    Stays Bounded (pushInputs E marked) := by
  refine .get fun s bounded => ?_
  have pos := bounded.counts.inputs_pos
  have le := bounded.counts.inputs_le
  have size : (0 : Int) ≤ (s.gNumInputs.toNat : Int) - 1 := by omega
  refine (Stays.onL Bounded.blind (luaCreatetable_modest size)).bind fun _ => ?_
  refine .countUp fun i _ high => ?_
  have inside : i < markerSize := Nat.lt_of_lt_of_le high le
  refine (Stays.onL Bounded.blind (push_modest _)).bind fun _ => ?_
  refine (pushInput_stays inside (hm i)).bind fun _ => ?_
  exact Stays.onL Bounded.blind (luaSettable_modest E _)

/-- Everything that calls the script with the inputs goes through `pushInputs`. -/
theorem callHook_stays (hook : Hook) {marked : Nat → DllM σ PUnit}
    (hm : ∀ i, Stays Bounded (marked i)) (nresults : Nat) :
    Stays Bounded (callHook E hook marked nresults) := by
  have missing : Stays Bounded (emitMissing (σ := σ) hook) :=
    Stays.emit Bounded.blind fun s e mem => by
      cases List.mem_singleton.mp mem
      exact Nat.zero_le _
  refine (Stays.onL Bounded.blind (push_modest _)).bind fun _ => ?_
  refine (Stays.onL Bounded.blind (luaGettable_modest E _)).bind fun _ => ?_
  refine (Stays.onL Bounded.blind (luaHasType_modest _ _)).bind fun _ => ?_
  refine .ite (fun _ => ?_) fun _ => ?_
  · refine (pushInputs_stays E hm).bind fun _ => ?_
    refine (emitHook_stays Bounded.blind hook).bind fun _ => ?_
    exact (Stays.onL Bounded.blind (luaCall_modest E 1 nresults)).bind fun _ => .pure _
  · exact missing.bind fun _ => .pure _

theorem stringDummy_stays (i : Nat) : Stays Bounded (stringDummy (σ := σ) i) :=
  Stays.onL Bounded.blind (push_modest _)

theorem pushPString_stays (i : Nat) : Stays Bounded (pushPString (σ := σ) i) :=
  .get fun _ _ => Stays.onL Bounded.blind (push_modest _)

/-! ### Reading results back -/

theorem fetchElement_stays (tbl : TValue) (i : Nat) : Stays Bounded (fetchElement E tbl i) := by
  refine (Stays.onL Bounded.blind (push_modest _)).bind fun _ => ?_
  refine (Stays.check Bounded.blind _).bind fun _ => ?_
  exact Stays.onL Bounded.blind (luaGettable_modest E _)

theorem storeNumber_stays (bar : Int) {cell : LuaNumber → DllM σ PUnit} {bad : DllM σ PUnit}
    (hc : ∀ d, Stays Bounded (cell d)) (hb : Stays Bounded bad) :
    Stays Bounded (storeNumber E bar cell bad) := by
  refine (Stays.onL Bounded.blind (luaIsnumber_modest E _)).bind fun _ => ?_
  refine .ite (fun _ => ?_) fun _ => ?_
  · exact (Stays.onL Bounded.blind (luaTonumber_modest E _)).bind fun d => hc d
  · exact (hc _).bind fun _ => (Stays.popAbove Bounded.blind bar).bind fun _ => hb

theorem storeString_stays (bar : Int) (i : Nat) : Stays Bounded (storeString E bar i) := by
  refine (Stays.onL Bounded.blind (luaIsstring_modest _)).bind fun _ => ?_
  refine .ite (fun _ => ?_) fun _ => ?_
  · refine (Stays.onL Bounded.blind (luaTostring_modest E)).bind fun text => ?_
    exact Stays.setPString Bounded.blind i _
  · refine (Stays.setPString Bounded.blind i _).bind fun _ => ?_
    exact (Stays.popAbove Bounded.blind bar).bind fun _ => Stays.setError Bounded.blind 1

/-- An output is looked up among the markers before it is stored. -/
theorem storeOutput_stays (bar : Int) {marked : Nat → DllM σ PUnit} {i : Nat}
    (inside : i < markerSize) (hm : Stays Bounded (marked i)) :
    Stays Bounded (storeOutput E bar marked i) := by
  refine (Stays.outMarked inside).bind fun _ => .ite (fun _ => hm) fun _ => ?_
  exact storeNumber_stays E bar (Stays.setPOutput Bounded.blind i) (Stays.setError Bounded.blind 1)

theorem readOutput_stays (bar : Int) (tbl : TValue) {i : Nat} (inside : i < markerSize) :
    Stays Bounded (readOutput E bar tbl i) := by
  refine (fetchElement_stays E tbl i).bind fun _ => ?_
  refine (storeOutput_stays E bar inside (storeString_stays E bar i)).bind fun _ => ?_
  exact Stays.popAbove Bounded.blind bar

theorem readStartOutput_stays (bar : Int) (tbl : TValue) {i : Nat} (inside : i < markerSize) :
    Stays Bounded (readStartOutput E bar tbl i) := by
  refine (fetchElement_stays E tbl i).bind fun _ => ?_
  refine (storeOutput_stays E bar inside (.pure _)).bind fun _ => ?_
  exact Stays.popAbove Bounded.blind bar

theorem readPUser_stays (bar : Int) (tbl : TValue) (i : Nat) :
    Stays Bounded (readPUser E bar tbl i) := by
  refine (fetchElement_stays E tbl (i + 1)).bind fun _ => ?_
  refine (storeNumber_stays E bar (Stays.setPUser Bounded.blind i) (.pure _)).bind fun _ => ?_
  exact Stays.popAbove Bounded.blind bar

/-- The rounds are those of the channels that are counted when the loop begins. -/
theorem takeTable_stays (bar : Int) (lo : Nat) (hi : Dll σ → Nat)
    {round : TValue → Nat → DllM σ PUnit} {other : DllM σ PUnit}
    (hr : ∀ s, Bounded s → ∀ tbl i, i < hi s → Stays Bounded (round tbl i))
    (ho : Stays Bounded other) : Stays Bounded (takeTable bar lo hi round other) := by
  refine (Stays.onL Bounded.blind (luaHasType_modest _ _)).bind fun _ => ?_
  refine .ite (fun _ => ?_) fun _ => ho
  refine (Stays.onL Bounded.blind (valueAt_modest _)).bind fun tbl => .get fun s bounded => ?_
  refine (Maintains.countUp fun i _ high => hr s bounded tbl i high).bind fun _ => ?_
  exact Stays.popAbove Bounded.blind bar

/-- The outputs that are read have a marker. -/
theorem Bounded.output {s : Dll σ} (bounded : Bounded s) {i : Nat} (low : i < s.gNumOutputs.toNat) :
    i < markerSize :=
  Nat.lt_of_lt_of_le low bounded.counts.outputs_le

/-! ### The simulation -/

/-- The user cells are 101, whatever the counts are. -/
theorem storePUser_stays {I : Dll σ → Prop} (blind : Blind I) : Stays I (storePUser E) := by
  refine (Stays.onL blind (luaCreatetable_modest (by omega))).bind fun _ => ?_
  have rounds : Stays I (countUp 0 101 fun i => do
      onL (luaPushnumber (.ofNat (i + 1)))
      let s ← get
      onL (luaPushnumber (s.host.pUser i))
      onL (luaSettable E (-3))) := by
    refine .countUp fun i _ _ => (Stays.onL blind (push_modest _)).bind fun _ => ?_
    refine .get fun s _ => (Stays.onL blind (push_modest _)).bind fun _ => ?_
    exact Stays.onL blind (luaSettable_modest E _)
  exact rounds.bind fun _ => Stays.onL blind (luaSetglobal_modest E _)

/-- With the counts in bounds, so is the start of a session. -/
theorem startSession_stays : Stays Bounded (startSession E) := by
  have reading : ∀ bar, Stays Bounded (readStartResult E bar) := fun bar =>
    (emitReply_stays Bounded.blind _).bind fun _ =>
      takeTable_stays bar 1 _ (fun s bounded tbl i low => readStartOutput_stays E bar tbl
        (bounded.output low)) (Stays.setError Bounded.blind 1)
  have starting : ∀ bar, Stays Bounded (startScript E bar) := by
    intro bar
    refine (callHook_stays E .gSimStart stringDummy_stays 1).bind fun _ => ?_
    refine .ite (fun _ => (reading bar).bind fun _ => ?_) fun _ => .pure _
    exact (Stays.setPOutput Bounded.blind 0 _).bind fun _ => Stays.setError Bounded.blind 0
  refine Stays.height.bind fun bar => (storePUser_stays E Bounded.blind).bind fun _ => ?_
  exact (starting bar).bind fun _ => Stays.check Bounded.blind _

theorem calculate_stays : Stays Bounded (calculate E) := by
  have reading : ∀ bar, Stays Bounded (readResult E bar) := fun bar =>
    (emitReply_stays Bounded.blind _).bind fun _ =>
      takeTable_stays bar 1 _ (fun s bounded tbl i low => readOutput_stays E bar tbl
        (bounded.output low)) (Stays.setError Bounded.blind 1)
  have exchanging : ∀ bar, Stays Bounded (exchange E bar) := fun bar =>
    (callHook_stays E .gCalculate pushPString_stays 1).bind fun _ =>
      .ite (fun _ => reading bar) fun _ => Stays.setError Bounded.blind 1
  exact Stays.height.bind fun bar => (exchanging bar).bind fun _ => Stays.check Bounded.blind _

/-- The debug console copies no name. -/
theorem console_stays {I : Dll σ → Prop} (blind : Blind I) {step : DllM σ PUnit}
    (only : ∀ s, Ensures step s (fun _ t => ConsoleOnly s t) fun _ _ => False) :
    Stays I step := by
  refine .of_ensures fun s inv => (only s).mono (fun _ t same => ?_) fun _ _ no => no.elim
  refine blind s t ⟨same.gNumInputs, same.gNumOutputs⟩ (fun fit => ?_) inv
  refine fit.grows (same.trace.mono fun e console => ?_)
  cases e with
  | dummy n => exact console.elim
  | _ => exact Nat.zero_le _

/-- A step after an error does not look at the counts; any other one finds the
reserved input counted, and then the loops stay inside the arrays. -/
theorem runStep_bounded {s : Dll σ} (going : InSession s) :
    Ensures (runStep E) s (fun _ t => InSession t) (fun e t => e.InBounds ∧ CopiesFit t) := by
  have console := (consoleStep_outcome (A := fun e t => e.InBounds ∧ CopiesFit t) s).and
    ((console_stays Housed.blind consoleStep_outcome).ensures going.housed)
  refine (console.mono (fun _ _ h => h) fun _ _ stop => stop.1).bind
    fun _ t ⟨only, housed⟩ => ?_
  have going' : InSession t := ⟨housed, by rw [only.gERROR, only.gNumInputs]; exact going.counted⟩
  refine .step (run_get t) (.ite (fun _ => ?_) fun fine => ?_)
  · refine .of_ok (run_setPOutput 0 plError t) ⟨?_, going'.counted⟩
    exact Housed.blind t _ ⟨rfl, rfl⟩ (fun fit => fit) housed
  · have bounded : Bounded t := going'.bounded (by simpa using fine)
    exact ((calculate_stays E).ensures bounded).mono (fun _ _ kept => kept.inSession)
      fun _ _ stop => ⟨stop.1, stop.2.copies⟩

theorem restorePUser_stays : Stays Bounded (restorePUser E) := by
  refine Stays.height.bind fun bar => (Stays.onL Bounded.blind (push_modest _)).bind fun _ => ?_
  refine (Stays.onL Bounded.blind (luaGettable_modest E _)).bind fun _ => ?_
  refine (emitReply_stays Bounded.blind _).bind fun _ => ?_
  exact takeTable_stays bar 0 _ (fun _ _ tbl i _ => readPUser_stays E bar tbl i) (.pure _)

theorem stopping_stays : Stays Bounded (do callStop E; restorePUser E) := by
  have stopping : Stays Bounded (callStop E) :=
    (callHook_stays E .gSimStop stringDummy_stays 0).bind fun _ =>
      .ite (fun _ => .pure _) fun _ => Stays.setError Bounded.blind 1
  exact stopping.bind fun _ => restorePUser_stays E

/-! ### The names of the start -/

/-- In every Lua state to come, the names of the channels below `count` fit into
the buffer. -/
def ShortNames (s : Dll σ) (hook : Hook) (count : Nat) : Prop :=
  ∀ epoch, s.epoch ≤ epoch → ∀ heap, E.luaOpen epoch = some heap →
    ∀ i, 1 ≤ i → i < count → ∀ answer,
      nameAnswer E hook i.toUInt8 (scriptHeap E s.gFileNum heap) = some answer →
        (nameText E.toCLib answer).length < dummySize

section Start

variable {E} {s t : Dll σ} {hook : Hook} {count : Nat}

/-- The next name that is asked is one of the short ones: it is asked in a later
Lua state, opened for the same file. Without memory the text is `!ERROR!`, which
fits. -/
theorem ShortNames.next (short : ShortNames E s hook count) (asked : Querying s t) {i : Nat}
    (pos : 1 ≤ i) (lt : i < count) {answer : Option TValue}
    (answered : nextAnswer E t hook i.toUInt8 = some answer) :
    (nameText E.toCLib answer).length < dummySize := by
  unfold nextAnswer at answered
  cases memory : E.luaOpen t.epoch with
  | none =>
      rw [memory] at answered
      cases answered
      have shown : (lit "!ERROR!").length < dummySize := by decide
      exact shown
  | some heap =>
      rw [memory, asked.only.1.gFileNum] at answered
      exact short t.epoch asked.only.2.epoch heap memory i pos lt answer answered

/-- A loop over all channels copies short names only. The invariant is that the
copies so far fit; the name of channel 0 is a text of the DLL, and the others
are bounded by `ShortNames`. -/
theorem askAll_bounded {reserved : String} {f : Nat → Marks → Marks} {query : UChar → DllM σ Bytes}
    (plain : (lit reserved).length < dummySize)
    (orderly : ∀ {i : Nat} {u : Dll σ}, i < markerSize → u.L = none → Ensures (query i.toUInt8) u
      (fun _ v => v.balanced = u.balanced ∧ v.L = none ∧ QueriesOnly u v) (Orderly u))
    (named : ∀ {i : Nat} {u : Dll σ}, i < markerSize → u.L = none → Ensures (query i.toUInt8) u
      (Queried E reserved hook f u i) (fun e _ => Unanswered E hook u i e))
    (stays : ∀ i, i < markerSize → Stays CopiesFit (query i.toUInt8))
    (le : count ≤ markerSize) (short : ShortNames E s hook count)
    (start : Querying s t) (fit : CopiesFit t) :
    Ensures (countUp 0 count fun i => do
      let name ← query i.toUInt8
      emit fun _ => [.dummy (name.length + 1)]) t (fun _ u => Querying s u ∧ CopiesFit u)
      (fun e u => e.InBounds ∧ CopiesFit u) := by
  refine Ensures.countUp (fun _ u => Querying s u ∧ CopiesFit u) (Nat.zero_le _) ⟨start, fit⟩
    fun i _ high u ⟨asked, fit⟩ => ?_
  have inside : i < markerSize := Nat.lt_of_lt_of_le high le
  have asking : Ensures (query i.toUInt8) u
      (fun name v => (Querying s v ∧ CopiesFit v) ∧ name.length < dummySize)
      (fun e v => e.InBounds ∧ CopiesFit v) := by
    refine (((orderly inside asked.closed).and (named inside asked.closed)).and
      ((stays i inside).ensures fit)).mono ?_ fun e v stop => stop.2
    rintro name v ⟨⟨⟨balanced, closed, only⟩, answer, answered, done⟩, fits⟩
    refine ⟨⟨asked.trans ⟨balanced, closed, only⟩, fits⟩, ?_⟩
    rw [done.name]
    by_cases zero : i.toUInt8 = 0
    · rw [if_pos zero]
      exact plain
    · rw [if_neg zero]
      have pos : 1 ≤ i := (toUInt8_ne_zero inside).mp zero
      exact short.next asked pos high (answered pos)
  refine asking.bind fun name v ⟨⟨asked', fits⟩, fitting⟩ => .of_ok (run_emit _ v) ⟨?_, ?_⟩
  · have noted := QueriesOnly.frame.note v [.dummy (name.length + 1)] (by simp [Event.OfQuery])
    exact asked'.trans ⟨rfl, asked'.closed, noted⟩
  · refine fits.note fun e mem => ?_
    cases List.mem_singleton.mp mem
    exact fitting

/-- The names of all channels fit. -/
def NamesFit (E : Env σ) (s : Dll σ) : Prop :=
  ShortNames E s .gInputName s.gNumInputs.toNat ∧ ShortNames E s .gOutputName s.gNumOutputs.toNat

/-- The names are asked for every channel that is counted, and each of them fits
into `dummy`. Every place that is written lies below the counts, so below 100.
-/
theorem queryMarkers_bounded (closed : s.L = none) (housed : Housed s) (names : NamesFit E s) :
    Ensures (queryMarkers E) s (fun _ t => Querying s t ∧ CopiesFit t)
      (fun e t => e.InBounds ∧ CopiesFit t) := by
  have start : Querying s s := ⟨rfl, closed, QueriesOnly.frame.refl s⟩
  have clear : Ensures (countUp 0 markerSize fun i => do
      markInput i 0
      markOutput i 0) s (fun _ t => Querying s t ∧ CopiesFit t)
      (fun e t => e.InBounds ∧ CopiesFit t) := by
    refine Ensures.countUp (fun _ t => Querying s t ∧ CopiesFit t) (Nat.zero_le _)
      ⟨start, housed.copies⟩ fun i _ high t ⟨asked, fit⟩ => ?_
    have first := ((Stays.markInput CopiesFit.blind high 0).ensures fit).and
      (asked.marked (markInput_marksOnly high 0) (A := fun _ _ => True))
    refine (first.mono (fun _ _ h => h) fun _ _ stop => stop.1).bind fun _ u ⟨fit, asked⟩ => ?_
    have second := ((Stays.markOutput CopiesFit.blind high 0).ensures fit).and
      (asked.marked (markOutput_marksOnly high 0) (A := fun _ _ => True))
    exact second.mono (fun _ _ ⟨fit, asked⟩ => ⟨asked, fit⟩) fun _ _ stop => stop.1
  refine clear.bind fun _ t ⟨cleared, fit⟩ => .step (run_get t) ?_
  rw [cleared.only.1.gNumInputs]
  have inputs := askAll_bounded (E := E) (s := s) (t := t) (f := Marks.input) (by decide)
    (fun inside shut => getInputName_orderly E inside shut) getInputName_named
    (fun i inside => getInputName_stays E CopiesFit.blind (by rwa [toUInt8_toNat inside]))
    housed.channels.inputs_le names.1 cleared fit
  refine inputs.bind fun _ u ⟨asked, fit⟩ => .step (run_get u) ?_
  rw [asked.only.1.gNumOutputs]
  exact askAll_bounded (E := E) (s := s) (t := u) (f := Marks.output) (by decide)
    (fun inside shut => getOutputName_orderly E inside shut) getOutputName_named
    (fun i inside => getOutputName_stays E CopiesFit.blind (by rwa [toUInt8_toNat inside]))
    housed.channels.outputs_le names.2 asked fit

theorem NamesFit.same (names : NamesFit E s) (epoch : t.epoch = s.epoch)
    (file : t.gFileNum = s.gFileNum) (counts : SameCounts s t) : NamesFit E t := by
  unfold NamesFit ShortNames
  rw [epoch, file, counts.1, counts.2]
  exact names

/-! ### The start -/

/-- With `gPUser` assigned from `host`, the script's `gSimStart` is a function. -/
def StartsIn (E : Env σ) (host : Host) (heap : Heap σ) : Prop :=
  ∃ heap₁ f heap₂,
    assign E heap.globals (.string (lit "gPUser")) (.table heap.bound)
      (heap.alloc (userTable host)) = some heap₁ ∧
    entry E heap₁.globals (.string (lit Hook.gSimStart.name)) heap₁ = some (.function f, heap₂)

/-- In some Lua state to come a start finds the script's `gSimStart`. -/
def FindsStart (E : Env σ) (s : Dll σ) (host : Host) : Prop :=
  ∃ epoch, s.epoch ≤ epoch ∧ ∃ heap, E.luaOpen epoch = some heap ∧
    StartsIn E host (scriptHeap E s.gFileNum heap)

/-- The reserved input is counted, if the script has a function to be called with a
table of the inputs. -/
def StartCounted (E : Env σ) (s : Dll σ) (host : Host) : Prop :=
  FindsStart E s host → 1 ≤ s.gNumInputs.toNat

/-- An error of the script is no access out of bounds. -/
theorem Stop.Raised.inBounds {e : Stop} (raised : e.Raised) : e.InBounds := by
  obtain ⟨_, rfl, error, rfl⟩ := raised
  exact ⟨by simp, by simp⟩

/-- A function the script does not have is not called, and no table is built for
it: the lookup gives something else, or its metamethod raises an error. -/
theorem callHook_absent {heap : Heap σ} (hook : Hook) (marked : Nat → DllM σ PUnit)
    (nresults : Nat) (stack : List TValue)
    (absent : ∀ f heap',
      entry E heap.globals (.string (lit hook.name)) heap ≠ some (.function f, heap')) :
    Ensures (callHook E hook marked nresults) (s.withL ⟨stack, heap⟩)
      (fun found t => found = false ∧ ∃ l, t = (s.replied (.result hook) .missing).withL l)
      (fun e t => e.Raised ∧ ∃ l, t = s.withL l) := by
  refine .step (run_onL (run_push _ _)) ?_
  rw [Hook.cstr_name]
  have lookup : Ensures (onL (luaGettable E globalsIndex))
      (s.withL ⟨.string (lit hook.name) :: stack, heap⟩)
      (fun _ t => ∃ v heap', entry E heap.globals (.string (lit hook.name)) heap =
        some (v, heap') ∧ t = s.withL ⟨v :: stack, heap'⟩)
      (fun e t => e.Raised ∧ ∃ l, t = s.withL l) :=
    ensures_onL ((luaGettable_entry_rule E _).mono (fun _ l ⟨v, heap', read, same⟩ =>
      ⟨v, heap', read, by rw [same]⟩) fun e l raised => ⟨⟨e, rfl, raised⟩, l, rfl⟩)
  refine lookup.bind fun _ t ⟨v, heap', read, same⟩ => ?_
  subst same
  refine .step (run_onL (run_luaHasType .function)) (.ite (fun isFunction => ?_) fun _ => ?_)
  · obtain ⟨f, rfl⟩ := TValue.eq_function (of_decide_eq_true isFunction)
    exact absurd read (absent f heap')
  · exact .step (run_emit _ _) (.pure ⟨rfl, ⟨v :: stack, heap'⟩, rfl⟩)

/-- Without `gSimStart` the start leaves the error flag up, whatever the counts:
no table of the inputs is asked for, and nothing is read back. -/
theorem startSession_unfound {stack : List TValue} {heap : Heap σ} (housed : Housed s)
    (unfound : ¬StartsIn E s.host heap) :
    Ensures (startSession E) (s.withL ⟨stack, heap⟩)
      (fun _ t => Housed t ∧ t.gERROR = s.gERROR) (fun e t => e.InBounds ∧ CopiesFit t) := by
  have opened : Housed (s.withL ⟨stack, heap⟩) :=
    Housed.blind s _ ⟨rfl, rfl⟩ (fun fit => fit) housed
  have storing := (storePUser_assigns E (s := s) stack heap).and
    ((storePUser_stays E Housed.blind).ensures opened)
  refine .step (run_height (l := ⟨stack, heap⟩)) ((storing.mono (fun _ _ h => h)
    fun _ _ stop => ⟨stop.2.1, stop.2.2.copies⟩).bind fun _ t ⟨⟨heap₁, assigned, same⟩, _⟩ => ?_)
  subst same
  have absent : ∀ f heap₂, entry E heap₁.globals (.string (lit Hook.gSimStart.name)) heap₁ ≠
      some (.function f, heap₂) := fun f heap₂ found => unfound ⟨heap₁, f, heap₂, assigned, found⟩
  have calling : Ensures (callHook E .gSimStart stringDummy 1) (s.withL ⟨stack, heap₁⟩)
      (fun found t => found = false ∧ ∃ l, t = (s.replied (.result .gSimStart) .missing).withL l)
      (fun e t => e.InBounds ∧ CopiesFit t) :=
    (callHook_absent .gSimStart stringDummy 1 stack absent).mono (fun _ _ h => h)
      fun e t ⟨raised, l, same⟩ => ⟨raised.inBounds, by rw [same]; exact housed.copies⟩
  have noted : CopiesFit (s.replied (.result .gSimStart) .missing) :=
    housed.copies.note (by simp [Event.copied])
  have starting : Ensures (startScript E (stack.length - 1)) (s.withL ⟨stack, heap₁⟩)
      (fun _ t => Housed t ∧ t.gERROR = s.gERROR) (fun e t => e.InBounds ∧ CopiesFit t) := by
    refine calling.bind fun found t ⟨missing, l, same⟩ => .ite (fun yes => ?_) fun _ => .pure ?_
    · exact absurd yes (by simp [missing])
    · subst same
      exact ⟨housed.of_counts ⟨rfl, rfl⟩ noted, rfl⟩
  refine starting.bind fun _ t ⟨kept, error⟩ => .of_ok (run_check _ t) ⟨?_, error⟩
  exact Housed.blind t _ ⟨rfl, rfl⟩ (fun fit => fit) kept

/-- Opening the script for the session, and starting in it. With the reserved
input counted all loops are in bounds; without it, the script has no
`gSimStart`, or there is no memory for it. -/
theorem openSession_bounded (closed : s.L = none) (housed : Housed s) (error : s.gERROR ≠ 0)
    (counted : StartCounted E s s.host) :
    Ensures (openLuaScript E .session >>= fun opened =>
      if opened then startSession E else pure ()) s (fun _ t => InSession t)
      (fun e t => e.InBounds ∧ CopiesFit t) := by
  by_cases pos : 1 ≤ s.gNumInputs.toNat
  · have opening : Stays Bounded (openLuaScript E .session >>= fun opened =>
        if opened then startSession E else pure ()) :=
      (openLuaScript_stays E Bounded.blind .session).bind fun _ =>
        .ite (fun _ => startSession_stays E) fun _ => .pure _
    exact (opening.ensures (housed.bounded pos)).mono (fun _ _ kept => kept.inSession)
      fun _ _ stop => ⟨stop.1, stop.2.copies⟩
  have opening := openState_closed E closed
  cases memory : E.luaOpen s.epoch with
  | none =>
      rw [memory] at opening
      have failed : openLuaScript E .session s = .ok false { s with epoch := s.epoch + 1 } :=
        ok_bind opening (ok_ite_false (by decide) rfl)
      refine .step failed (.ite (fun no => absurd no (by decide)) fun _ => .pure ?_)
      exact ⟨Housed.blind s _ ⟨rfl, rfl⟩ (fun fit => fit) housed, fun zero => absurd zero error⟩
  | some heap =>
      -- a count of 0: then this state has no gSimStart to be called
      have unfound : ¬StartsIn E s.host (scriptHeap E s.gFileNum heap) := fun found =>
        pos (counted ⟨s.epoch, le_refl _, heap, memory, found⟩)
      have opens := (openLuaScript_heap (A := fun e t => e.InBounds ∧ CopiesFit t) closed memory
        .session).and ((openLuaScript_stays E Housed.blind .session).ensures housed)
      refine (opens.mono (fun _ _ h => h) fun _ _ stop => stop.1).bind
        fun opened t ⟨⟨yes, stack, chunk, same⟩, housed'⟩ => ?_
      subst same
      refine .ite (fun _ => ?_) fun no => absurd yes no
      refine (startSession_unfound (housed'.of_counts ⟨rfl, rfl⟩ housed'.copies) unfound).mono
        (fun _ t ⟨kept, same⟩ => ⟨kept, fun zero => absurd ?_ error⟩) fun _ _ stop => stop
      exact same.symm.trans zero

/-- The deferred start. Console and names come first and leave the counts, the
file and the host's cells alone, so what was assumed of the start holds where
the session is opened. -/
theorem cSimStartFlaw_bounded (closed : s.L = none) (housed : Housed s) (names : NamesFit E s)
    (counted : StartCounted E s s.host) :
    Ensures (cSimStartFlaw E) s (fun _ t => InSession t) (fun e t => e.InBounds ∧ CopiesFit t) := by
  refine .step (run_setError 1 s) (.step (t := s.beginning) rfl ?_)
  have begun : Housed s.beginning := Housed.blind s _ ⟨rfl, rfl⟩ (fun fit => fit) housed
  have console := (consoleStart_outcome (A := fun e t => e.InBounds ∧ CopiesFit t) s.beginning).and
    ((console_stays Housed.blind consoleStart_outcome).ensures begun)
  refine (console.mono (fun _ _ h => h) fun _ _ stop => stop.1).bind fun _ t ⟨only, shown⟩ => ?_
  have names' : NamesFit E t :=
    names.same only.epoch only.gFileNum ⟨only.gNumInputs, only.gNumOutputs⟩
  refine (queryMarkers_bounded (only.L.trans closed) shown names').bind fun _ u ⟨asked, fit⟩ => ?_
  have inputs : u.gNumInputs = s.gNumInputs := asked.only.1.gNumInputs.trans only.gNumInputs
  have outputs : u.gNumOutputs = s.gNumOutputs := asked.only.1.gNumOutputs.trans only.gNumOutputs
  have error : u.gERROR = 1 := asked.only.1.gERROR.trans only.gERROR
  have file : u.gFileNum = s.gFileNum := asked.only.1.gFileNum.trans only.gFileNum
  have host : u.host = s.beginning.host := asked.only.1.host.trans only.host
  refine openSession_bounded asked.closed (housed.of_counts ⟨inputs, outputs⟩ fit)
    (by simp [error]) ?_
  rintro ⟨epoch, later, heap, memory, found⟩
  rw [inputs]
  rw [file, host] at found
  have passed : s.epoch ≤ epoch :=
    le_trans (le_of_eq only.epoch.symm) (le_trans asked.only.2.epoch later)
  exact counted ⟨epoch, passed, heap, memory, found⟩

end Start

/-! ### Calls from the host -/

section Calls

variable {E} {s : Dll σ}

/-- What the call that makes the start finds. -/
structure StartFits (E : Env σ) (s : Dll σ) : Prop where
  closed : s.L = none
  housed : Housed s
  names : NamesFit E s
  counted : StartCounted E s s.host

/-- A call of `CCalculateEx`: the start, if one is pending, and then the step.
The start ends in a session, and so does a step before. -/
theorem cCalculateEx_bounded (start : s.gCSimStartOverride ≠ 0 → StartFits E s)
    (going : s.gCSimStartOverride = 0 → InSession s) :
    Ensures (cCalculateEx E) s (fun _ t => InSession t)
      (fun e t => e.InBounds ∧ CopiesFit t) := by
  have first : Ensures (startOverride E) s (fun _ t => InSession t)
      (fun e t => e.InBounds ∧ CopiesFit t) := by
    refine .step (run_get s) (.ite (fun pending => ?_) fun no => .pure (going (by simpa using no)))
    obtain ⟨closed, housed, names, counted⟩ := start pending
    refine (cSimStartFlaw_bounded closed housed names counted).bind fun _ t started => ?_
    refine .modify ⟨?_, started.counted⟩
    exact Housed.blind t _ ⟨rfl, rfl⟩ (fun fit => fit) started.housed
  exact first.bind fun _ t started => runStep_bounded E started

/-- The end of a stop works on the state and the console alone. -/
theorem closing_stays {I : Dll σ → Prop} (blind : Blind I) :
    Stays I (closeLuaScript >>= fun _ => consoleStop) :=
  (closeLuaScript_stays blind).bind fun _ => console_stays blind fun s =>
    (consoleStop_outcome s).mono (fun _ _ h => h.1) fun _ _ no => no

/-- A stop reads the script only if no error is flagged; in a session the
reserved input is counted then. -/
theorem cSimStop_bounded (going : InSession s) :
    Ensures (cSimStop E) s (fun _ t => CopiesFit t) (fun e t => e.InBounds ∧ CopiesFit t) := by
  have stopping : Ensures (stopScript E) s (fun _ t => CopiesFit t)
      (fun e t => e.InBounds ∧ CopiesFit t) := by
    refine .step (run_get s) (.ite (fun fine => ?_) fun _ => .pure going.housed.copies)
    exact ((stopping_stays E).ensures (going.bounded fine)).mono (fun _ _ kept => kept.copies)
      fun _ _ stop => ⟨stop.1, stop.2.copies⟩
  exact stopping.bind fun _ t fit => (closing_stays CopiesFit.blind).ensures fit

/-- A stop without a start reads nothing of the script. -/
theorem cSimStop_unstarted (closed : s.L = none) (fit : CopiesFit s) :
    Ensures (cSimStop E) s (fun _ t => CopiesFit t) (fun e t => e.InBounds ∧ CopiesFit t) := by
  by_cases fine : s.gERROR = 0
  · exact .of_error (cSimStop_null E closed fine) ⟨⟨by simp, by simp⟩, fit⟩
  · have skip : stopScript E s = .ok ⟨⟩ s := ok_bind (run_get s) (ok_ite_false fine rfl)
    exact .step skip ((closing_stays CopiesFit.blind).ensures fit)

variable (E) in
/-- A count query copies nothing: it opens the script, reads a number and closes
it again. -/
theorem countQuery_stays (name : String) {store : UChar → Dll σ → Dll σ}
    (hs : ∀ n s, (store n s).trace = s.trace) : Stays CopiesFit (countQuery E name store) := by
  have reading : Stays CopiesFit (readCount E store) := by
    refine (Stays.onL CopiesFit.blind (luaHasType_modest _ _)).bind fun _ => ?_
    refine .ite (fun _ => .pure _) fun _ => ?_
    refine (Stays.onL CopiesFit.blind (luaTonumber_modest E _)).bind fun d => ?_
    refine .modify fun s fit => ?_
    unfold CopiesFit
    rw [hs]
    exact fit
  have choosing : Stays CopiesFit (modify fun s : Dll σ =>
      { s with gFileNum := castUChar E.toCLib (s.host.pUser 100) }) :=
    Stays.update CopiesFit.blind (fun _ => ⟨rfl, rfl⟩) fun _ => rfl
  refine choosing.bind fun _ => ?_
  refine (openLuaScript_stays E CopiesFit.blind .query).bind fun _ => .ite (fun _ => ?_) fun _ => ?_
  · refine (Stays.onL CopiesFit.blind (luaGetglobal_modest E name)).bind fun _ => ?_
    exact reading.bind fun _ => closeLuaScript_stays CopiesFit.blind
  · exact Stays.setError CopiesFit.blind 1

/-- The channel that is asked for has a marker; so has every channel of a start. -/
def FitsMarkers (s : Dll σ) (c : HostCall) : Prop :=
  match c.entry with
  | .getInputName channel => channel.toNat < markerSize
  | .getOutputName channel => channel.toNat < markerSize
  | .cCalculateEx => s.gCSimStartOverride ≠ 0 → s.ChannelsFit
  | _ => True

instance (s : Dll σ) : ∀ c, Decidable (FitsMarkers s c)
  | ⟨_, .getInputName channel⟩ => inferInstanceAs (Decidable (channel.toNat < markerSize))
  | ⟨_, .getOutputName channel⟩ => inferInstanceAs (Decidable (channel.toNat < markerSize))
  | ⟨_, .cCalculateEx⟩ => inferInstanceAs (Decidable (s.gCSimStartOverride ≠ 0 → s.ChannelsFit))
  | ⟨_, .cNumInputsEx⟩ => .isTrue trivial
  | ⟨_, .cNumOutputsEx⟩ => .isTrue trivial
  | ⟨_, .cSimStart⟩ => .isTrue trivial
  | ⟨_, .cSimStop⟩ => .isTrue trivial

/-- What a call of the host needs. For the one that makes the start, the names have to
fit as well, and the count of the inputs must not have wrapped to 0 where the script
has a `gSimStart` to be called. -/
structure FitsBounds (E : Env σ) (s : Dll σ) (c : HostCall) : Prop where
  markers : FitsMarkers s c
  names : c.entry = .cCalculateEx → s.gCSimStartOverride ≠ 0 → NamesFit E s
  counted : c.entry = .cCalculateEx → s.gCSimStartOverride ≠ 0 →
    StartCounted E s (c.write s.host)

/-- What is kept in a phase. -/
def Phase.Bounds : Phase → Dll σ → Prop
  | .running, s => InSession s
  | _, s => CopiesFit s

theorem Phase.Bounds.copies {phase : Phase} (kept : phase.Bounds s) : CopiesFit s := by
  cases phase with
  | running => exact kept.housed.copies
  | _ => exact kept

/-- A query keeps the copies. A name query writes a marker, at the channel it
was asked for. -/
theorem Entry.query_stays {entry : Entry} (query : entry.IsQuery)
    (fits : FitsMarkers s ⟨id, entry⟩) : Stays CopiesFit (entry.perform E) := by
  cases entry with
  | cNumInputsEx =>
      have counting : Stays CopiesFit
          (countQuery E "gNumInputs" fun n s => { s with gNumInputs := n }) :=
        countQuery_stays E _ fun _ _ => rfl
      refine Maintains.bind (counting.bind fun _ => ?_) fun _ => .pure _
      exact .get fun _ _ => .pure _
  | cNumOutputsEx =>
      have counting : Stays CopiesFit
          (countQuery E "gNumOutputs" fun n s => { s with gNumOutputs := n }) :=
        countQuery_stays E _ fun _ _ => rfl
      refine Maintains.bind (counting.bind fun _ => ?_) fun _ => .pure _
      exact .get fun _ _ => .pure _
  | getInputName channel => exact (getInputName_stays E CopiesFit.blind fits).bind fun _ => .pure _
  | getOutputName channel =>
      exact (getOutputName_stays E CopiesFit.blind fits).bind fun _ => .pure _
  | _ => exact absurd query id

/-- The call that makes the start, with what the host has written before it:
what it needs is asked of this call alone, in the state it is made in. -/
theorem Phase.Bounds.starting {before : Phase} {c : HostCall} (busy : before ≠ .idle)
    (run : c.entry = .cCalculateEx) (fits : FitsBounds E s c) (inv : before.Inv s)
    (kept : before.Bounds s) (pending : s.gCSimStartOverride ≠ 0) :
    StartFits E { s with host := c.write s.host } := by
  have channels := fits.markers
  unfold FitsMarkers at channels
  rw [run] at channels
  have written : Housed { s with host := c.write s.host } :=
    Housed.blind s _ ⟨rfl, rfl⟩ (fun fit => fit) ⟨channels pending, kept.copies⟩
  cases before with
  | idle => exact absurd rfl busy
  | started =>
      exact ⟨inv.1, written, (fits.names run pending).same rfl rfl ⟨rfl, rfl⟩,
        fits.counted run pending⟩
  | running => exact absurd inv.1 pending

/-- A later step, with what the host has written before it. -/
theorem Phase.Bounds.going {before : Phase} (busy : before ≠ .idle) (inv : before.Inv s)
    (kept : before.Bounds s) (settled : s.gCSimStartOverride = 0) (host : Host) :
    InSession { s with host := host } := by
  cases before with
  | idle => exact absurd rfl busy
  | started => exact absurd settled inv.2
  | running =>
      exact ⟨Housed.blind s _ ⟨rfl, rfl⟩ (fun fit => fit) kept.housed, kept.counted⟩

/-- One call of the protocol. A query needs its channel below 100, the call that
makes the start what `StartFits` says, and every other call nothing of its own.
-/
theorem HostCall.perform_bounded {before after : Phase} {c : HostCall}
    (move : before.next c = some after) (fits : FitsBounds E s c) (inv : before.Inv s)
    (kept : before.Bounds s) :
    Ensures (c.perform E) s (fun _ t => after.Bounds t) (fun e t => e.InBounds ∧ CopiesFit t) := by
  refine HostCall.ensures E ?_
  have copies : CopiesFit { s with host := c.write s.host } := kept.copies
  by_cases idle : before = .idle
  · subst idle
    rcases Phase.next_idle move with ⟨query, rfl⟩ | ⟨start, rfl⟩
    · exact (Entry.query_stays (s := s) query fits.markers).ensures copies
    · rw [start, Entry.perform_cSimStart]
      exact .bind (.modify copies) fun _ _ h => .pure h
  · rcases Phase.next_busy idle move with ⟨run, rfl⟩ | ⟨stop, rfl⟩
    · rw [run, Entry.perform_cCalculateEx]
      refine (cCalculateEx_bounded ?_ ?_).bind fun _ _ h => .pure h
      · exact fun pending => kept.starting idle run fits inv pending
      · exact fun settled => kept.going idle inv settled _
    · rw [stop, Entry.perform_cSimStop]
      refine Ensures.bind (Q := fun _ t => CopiesFit t) ?_ fun _ _ h => .pure h
      -- a stop right after CSimStart finds no script open
      cases before with
      | idle => exact absurd rfl idle
      | started => exact cSimStop_unstarted inv.1 copies
      | running => exact cSimStop_bounded (kept.going (by simp) inv inv.1 _)

end Calls

/-- As long as the counts and the names that a start finds fit the arrays, and
the host asks for channels that have a marker, nothing leaves an array, asks for
a negative size, or copies a name that is too long. The invariant between the
calls is `Phase.Bounds`; the condition is asked of each call in the state the
run has reached. -/
theorem bounds_along (host : Host) (calls : List HostCall) (last : Phase)
    (protocol : follow Phase.next .idle calls = some last)
    (fits : Along (HostCall.perform E) (FitsBounds E) calls (Dll.init host)) :
    Ensures (runCalls E calls) (Dll.init host) (fun _ t => CopiesFit t)
      (fun e t => e.InBounds ∧ CopiesFit t) := by
  have request : ∀ (before : Phase) (c : HostCall) (after : Phase) (s : Dll σ),
      before.next c = some after → FitsBounds E s c → before.Inv s ∧ before.Bounds s →
        Ensures (c.perform E) s (fun _ t => after.Inv t ∧ after.Bounds t)
          (fun e t => e.InBounds ∧ CopiesFit t) := by
    rintro before c after s move fits ⟨inv, kept⟩
    exact ((HostCall.perform_inv E move inv).and (HostCall.perform_bounded move fits inv kept)).mono
      (fun _ _ h => h) fun _ _ stop => stop.2
  have start : Phase.idle.Inv (Dll.init (σ := σ) host) ∧
      Phase.idle.Bounds (Dll.init (σ := σ) host) :=
    ⟨rfl, fun _ mem => by simp [Dll.init] at mem⟩
  exact (Ensures.runAll_along request protocol fits start).mono (fun _ _ h => h.2.copies)
    fun _ _ stop => stop

/-- A script with two channels each way: the name of a channel has 99 bytes, the first
of them `$`. -/
def longScript : Env Unit :=
  sampleEnv [("gNumInputs", .number (.ofNat 2)), ("gNumOutputs", .number (.ofNat 2)),
    ("gInputName", .function 1), ("gOutputName", .function 1), ("gSimStart", .function 2),
    ("gCalculate", .function 2), ("gSimStop", .function 2)]
    fun f args h => if f = 1 then ([.string (dollar :: List.replicate 98 65)], h) else (args, h)

/-- The names of its pins fill the buffer with their terminator. -/
theorem bounds_along_wholeSession :
    Ensures (runCalls longScript wholeSession) (Dll.init sampleHost) (fun _ t => CopiesFit t)
      (fun e t => e.InBounds ∧ CopiesFit t) := by
  have named : ∀ s hook count, (hook = .gInputName ∨ hook = .gOutputName) →
      ShortNames longScript s hook count := by
    rintro s hook count named epoch _ heap memory i _ _ answer answered
    cases memory
    rcases named with rfl | rfl
    · cases answered
      decide
    · cases answered
      decide
  have sized : Along (HostCall.perform longScript) (fun s c => FitsMarkers s c ∧
      (c.entry = .cCalculateEx → 1 ≤ s.gNumInputs.toNat)) wholeSession
      (Dll.init sampleHost) := by decide +kernel
  refine bounds_along longScript sampleHost wholeSession .idle (by decide) ?_
  refine sized.mono fun s c ⟨fits, counted⟩ => ⟨fits, fun _ _ => ?_, fun run _ _ => counted run⟩
  exact ⟨named s .gInputName _ (.inl rfl), named s .gOutputName _ (.inr rfl)⟩

/-- A script that gives every input a name of 100 bytes, the first of them `$`. -/
def wideScript (inputs : Nat) : Env Unit :=
  sampleEnv [("gNumInputs", .number (.ofNat inputs)), ("gNumOutputs", .number (.ofNat 1)),
    ("gInputName", .function 1), ("gSimStart", .function 1)]
    fun _ _ h => ([.string (dollar :: List.replicate 99 65)], h)

def firstStep : List HostCall :=
  quietCalls [.cNumInputsEx, .cNumOutputsEx, .cSimStart, .cCalculateEx]

def farName : List HostCall := quietCalls [.cNumInputsEx, .cNumOutputsEx, .getInputName 100]

/-- With 255 inputs the count wraps to 0 and the start asks for a table of negative
size; with 150 the name of input 100 marks a place that is not there; and with one,
its name does not fit into the buffer. -/
theorem wideScript_escapes :
    follow Phase.next .idle firstStep = some .running ∧
    follow Phase.next .idle farName = some .idle ∧
    Ensures (runCalls (wideScript 255) firstStep) (Dll.init sampleHost) (fun _ _ => False)
      (fun e t => ¬e.InBounds ∧ t.gNumInputs = 0) ∧
    Ensures (runCalls (wideScript 150) farName) (Dll.init sampleHost) (fun _ _ => False)
      (fun e t => ¬e.InBounds ∧ t.gNumInputs = 151) ∧
    Ensures (runCalls (wideScript 1) firstStep) (Dll.init sampleHost)
      (fun _ t => ¬CopiesFit t ∧ t.gNumInputs = 2) (fun _ _ => False) := by
  decide +kernel

end ProfiLua
