import ProfiLua.Dll.Entry
import ProfiLua.Program.Relational

/-!
Two runs of the DLL, in lockstep.

Everything a session computes with is a handful of globals, and two states that
agree on those run alike (`Twins`). A start needs less: it sets the error flag
and the markers up itself, so that what they were does not matter
(`cSimStartFlaw_couples`).
-/

namespace ProfiLua

open Program

variable {σ : Type} (E : Env σ)

/-! ### States that run alike -/

/-- A relation between two states that sees `L` and the file number, and sees
neither the record nor the epoch. -/
structure Observes (R : Dll σ → Dll σ → Prop) : Prop where
  L : ∀ s t, R s t → s.L = t.L
  gFileNum : ∀ s t, R s t → s.gFileNum = t.gFileNum
  setL : ∀ s t l, R s t → R { s with L := l } { t with L := l }
  record : ∀ s t b b' n n' xs ys, R s t →
    R { s with balanced := b, epoch := n, trace := xs }
      { t with balanced := b', epoch := n', trace := ys }

section Observed

variable {R : Dll σ → Dll σ → Prop} {α : Type}

/-- Both states have the same Lua state, so an API call does the same in both:
it stops in both or returns the same value in both. -/
theorem Observes.onL (O : Observes R) (call : LuaM σ α) : Lockstep R (ProfiLua.onL call) := by
  refine .of_alike fun s t related => ?_
  have same := O.L s t related
  cases live : s.L with
  | none =>
      rw [onL_null live, onL_null (same.symm.trans live)]
      exact rfl
  | some l =>
      cases run : call l with
      | ok a l' =>
          rw [onL_ok live run, onL_ok (same.symm.trans live) run]
          exact ⟨rfl, O.setL s t _ related⟩
      | error e l' =>
          rw [onL_error live run, onL_error (same.symm.trans live) run]
          exact rfl

theorem Observes.emit (O : Observes R) (events : Dll σ → List Event) :
    Lockstep R (ProfiLua.emit events) :=
  .modify fun s t related => O.record s t _ _ _ _ _ _ related

theorem Observes.check (O : Observes R) (ok : LuaState σ → Bool) :
    Lockstep R (ProfiLua.check ok) :=
  .modify fun s t related => O.record s t _ _ _ _ _ _ related

theorem Observes.pure (a : α) : Lockstep R (pure a : DllM σ α) :=
  .pure a fun _ _ related => related

theorem Observes.height (O : Observes R) : Lockstep R (ProfiLua.height (σ := σ)) :=
  .get (fun s t related => by rw [O.L s t related]) fun _ => Observes.pure _

theorem Observes.popAbove (O : Observes R) (bar : Int) :
    Lockstep R (ProfiLua.popAbove (σ := σ) bar) :=
  (O.onL _).bind fun _ => O.check _

/-! ### Opening and closing -/

variable {heap : Heap σ} (memory : ∀ n, E.luaOpen n = some heap)

include memory

/-- There is memory for both, and both new states begin with the same heap, at
whatever epoch each is opened. -/
theorem Observes.luaOpen (O : Observes R) : Lockstep R (luaOpen E) := by
  refine .modify fun s t related => ?_
  simp only [memory]
  exact O.record { s with L := some ⟨[.nil], heap⟩ } { t with L := some ⟨[.nil], heap⟩ } _ _ _ _ _ _
    (O.setL s t _ related)

/-- Both states are open or both closed, so both open a new one or neither does.
-/
theorem Observes.openState (O : Observes R) : Lockstep R (openState E) := by
  refine .get (fun s t related => by rw [O.L s t related]) fun s => .ite (Observes.pure _) ?_
  refine (O.luaOpen E memory).bind fun _ => ?_
  refine .get (fun s t related => by rw [O.L s t related]) fun t => .ite ?_ (Observes.pure _)
  exact (O.onL _).bind fun _ => Observes.pure _

/-- Both run the same file in the same new state. -/
theorem Observes.openLuaScript (O : Observes R) (purpose : Purpose) :
    Lockstep R (openLuaScript E purpose) := by
  refine (O.openState E memory).bind fun opened => .ite ?_ (Observes.pure _)
  refine Couples.bind ?_ fun _ => Observes.pure _
  refine .get (fun s t related => by rw [O.gFileNum s t related]) fun s => ?_
  refine (O.onL _).bind fun _ => ?_
  exact (O.emit _).bind fun _ => O.onL _

omit memory in
theorem Observes.closeLuaScript (O : Observes R) :
    Lockstep R (closeLuaScript (σ := σ)) := by
  refine .modify fun s t related => ?_
  rw [O.L s t related]
  split
  · exact O.record { s with L := none } { t with L := none } _ _ _ _ _ _ (O.setL s t none related)
  · exact related

end Observed

/-! ### Twins -/

/-- The two states differ in no global a session looks at, as far as markers below
`n` go; console and record are not looked at. -/
structure Twins (n : Nat) (s t : Dll σ) : Prop where
  L : s.L = t.L
  gNumInputs : s.gNumInputs = t.gNumInputs
  gNumOutputs : s.gNumOutputs = t.gNumOutputs
  gERROR : s.gERROR = t.gERROR
  gFileNum : s.gFileNum = t.gFileNum
  gCSimStartOverride : s.gCSimStartOverride = t.gCSimStartOverride
  host : s.host = t.host
  gInStrMarker : ∀ i < n, s.gInStrMarker i = t.gInStrMarker i
  gOutStrMarker : ∀ i < n, s.gOutStrMarker i = t.gOutStrMarker i

/-- Twins agree on everything the script can see. -/
theorem Twins.observes (n : Nat) : Observes (Twins (σ := σ) n) where
  L := fun _ _ h => h.L
  gFileNum := fun _ _ h => h.gFileNum
  setL := fun _ _ _ h => { h with L := rfl }
  record := fun _ _ _ _ _ _ _ _ h => { h with }

/-- Twins run in lockstep. -/
abbrev Lock {α : Type} (x : DllM σ α) : Prop := Lockstep (Twins markerSize) x

section Lock

variable {α : Type}

theorem Lock.pure (a : α) : Lock (pure a : DllM σ α) := Observes.pure a

theorem Lock.onL (call : LuaM σ α) : Lock (onL call) := (Twins.observes _).onL call

theorem Lock.popAbove (bar : Int) : Lock (popAbove (σ := σ) bar) := (Twins.observes _).popAbove bar

theorem Lock.setError (error : UChar) : Lock (setError (σ := σ) error) :=
  .modify fun _ _ h => { h with gERROR := rfl }

/-- A change of the host's arrays. -/
theorem Lock.host (f : Host → Host) :
    Lock (modify fun s => { s with host := f s.host } : DllM σ PUnit) :=
  .modify fun _ _ h => { h with host := congrArg f h.host }

theorem Lock.setPOutput (i : Nat) (d : LuaNumber) : Lock (setPOutput (σ := σ) i d) :=
  Lock.host fun h => { h with pOutput := Function.update h.pOutput i d }

theorem Lock.setPUser (i : Nat) (d : LuaNumber) : Lock (setPUser (σ := σ) i d) :=
  Lock.host fun h => { h with pUser := Function.update h.pUser i d }

theorem Lock.setPString (i : Nat) (text : Bytes) : Lock (setPString (σ := σ) i text) :=
  Lock.host fun h => { h with pString := Function.update h.pString i text }

/-- Both read the same marker. Outside the array, both stop. -/
theorem Lock.inMarked (i : Nat) : Lock (inMarked (σ := σ) i) := by
  unfold ProfiLua.inMarked
  split
  · rename_i inside
    exact .get (fun s t h => by rw [h.gInStrMarker i inside]) fun _ => Lock.pure _
  · exact .throw _

theorem Lock.outMarked (i : Nat) : Lock (outMarked (σ := σ) i) := by
  unfold ProfiLua.outMarked
  split
  · rename_i inside
    exact .get (fun s t h => by rw [h.gOutStrMarker i inside]) fun _ => Lock.pure _
  · exact .throw _

/-- Setting a marker makes it the same in both, and the others stay the same. -/
theorem update_same {n i : Nat} {f g : Nat → UChar} (mark : UChar) (same : ∀ j < n, f j = g j) :
    ∀ j < n, Function.update f i mark j = Function.update g i mark j := by
  intro j lt
  by_cases here : j = i
  · rw [here, Function.update_self, Function.update_self]
  · rw [Function.update_of_ne here, Function.update_of_ne here]
    exact same j lt

/-- The marker of an input is set in both, or both stop outside the array. -/
theorem Lock.markInput (i : Nat) (mark : UChar) : Lock (markInput (σ := σ) i mark) := by
  unfold ProfiLua.markInput
  split
  · exact .modify fun _ _ h => { h with gInStrMarker := update_same mark h.gInStrMarker }
  · exact .throw _

theorem Lock.markOutput (i : Nat) (mark : UChar) : Lock (markOutput (σ := σ) i mark) := by
  unfold ProfiLua.markOutput
  split
  · exact .modify fun _ _ h => { h with gOutStrMarker := update_same mark h.gOutStrMarker }
  · exact .throw _

/-! ### Calling the script -/

theorem pushInput_lock {marked : Nat → DllM σ PUnit} (hm : ∀ i, Lock (marked i)) (i : Nat) :
    Lock (pushInput marked i) :=
  (Lock.inMarked i).bind fun _ => .ite (hm i)
    (.get (fun s t h => by rw [h.host]) fun _ => Lock.onL _)

/-- Twins have the same counts, markers and inputs, so they build the same argument. -/
theorem pushInputs_lock {marked : Nat → DllM σ PUnit} (hm : ∀ i, Lock (marked i)) :
    Lock (pushInputs E marked) := by
  refine .get (fun s t h => by rw [h.gNumInputs]) fun s => (Lock.onL _).bind fun _ => ?_
  exact Lockstep.countUp fun i => (Lock.onL _).bind fun _ =>
    (pushInput_lock hm i).bind fun _ => Lock.onL _

theorem callHook_lock (hook : Hook) {marked : Nat → DllM σ PUnit} (hm : ∀ i, Lock (marked i))
    (nresults : Nat) : Lock (callHook E hook marked nresults) := by
  have O : Observes (Twins (σ := σ) markerSize) := Twins.observes _
  refine (Lock.onL _).bind fun _ => (Lock.onL _).bind fun _ => (Lock.onL _).bind fun _ => .ite ?_ ?_
  · refine (pushInputs_lock E hm).bind fun _ => (O.emit _).bind fun _ => ?_
    exact (Lock.onL _).bind fun _ => Lock.pure _
  · exact (O.emit _).bind fun _ => Lock.pure _

theorem pushPString_lock (i : Nat) : Lock (pushPString (σ := σ) i) :=
  .get (fun s t h => by rw [h.host]) fun _ => Lock.onL _

/-! ### Reading back -/

theorem fetchElement_lock (tbl : TValue) (i : Nat) : Lock (fetchElement E tbl i) :=
  (Lock.onL _).bind fun _ => ((Twins.observes _).check _).bind fun _ => Lock.onL _

/-- A number is stored in the same cell, and a bad element is dropped the same
way. -/
theorem storeNumber_lock (bar : Int) {cell : LuaNumber → DllM σ PUnit} {bad : DllM σ PUnit}
    (hc : ∀ d, Lock (cell d)) (hb : Lock bad) : Lock (storeNumber E bar cell bad) :=
  (Lock.onL _).bind fun _ => .ite ((Lock.onL _).bind fun d => hc d)
    ((hc _).bind fun _ => (Lock.popAbove bar).bind fun _ => hb)

theorem storeString_lock (bar : Int) (i : Nat) : Lock (storeString E bar i) :=
  (Lock.onL _).bind fun _ => .ite ((Lock.onL _).bind fun _ => Lock.setPString i _)
    ((Lock.setPString i _).bind fun _ => (Lock.popAbove bar).bind fun _ => Lock.setError 1)

/-- The markers of the outputs are the same, so an element is taken for a number
in both or for a text in both. -/
theorem storeOutput_lock (bar : Int) {marked : Nat → DllM σ PUnit} (hm : ∀ i, Lock (marked i))
    (i : Nat) : Lock (storeOutput E bar marked i) :=
  (Lock.outMarked i).bind fun _ => .ite (hm i)
    (storeNumber_lock E bar (Lock.setPOutput i) (Lock.setError 1))

/-- The loops run over the same channels and read the same elements. -/
theorem takeTable_lock (bar : Int) (lo : Nat) {hi : Dll σ → Nat}
    (same : ∀ s t, Twins markerSize s t → hi s = hi t) {round : TValue → Nat → DllM σ PUnit}
    {other : DllM σ PUnit} (hr : ∀ tbl i, Lock (round tbl i)) (ho : Lock other) :
    Lock (takeTable bar lo hi round other) := by
  refine (Lock.onL _).bind fun _ => .ite ((Lock.onL _).bind fun tbl => ?_) ho
  refine .get (fun s t h => by rw [same s t h]) fun s => ?_
  exact (Lockstep.countUp fun i => hr tbl i).bind fun _ => Lock.popAbove bar

theorem readOutput_lock (bar : Int) (tbl : TValue) (i : Nat) : Lock (readOutput E bar tbl i) :=
  (fetchElement_lock E tbl i).bind fun _ =>
    (storeOutput_lock E bar (storeString_lock E bar) i).bind fun _ => Lock.popAbove bar

theorem readStartOutput_lock (bar : Int) (tbl : TValue) (i : Nat) :
    Lock (readStartOutput E bar tbl i) :=
  (fetchElement_lock E tbl i).bind fun _ =>
    (storeOutput_lock E bar (fun _ => Lock.pure _) i).bind fun _ => Lock.popAbove bar

theorem readPUser_lock (bar : Int) (tbl : TValue) (i : Nat) : Lock (readPUser E bar tbl i) :=
  (fetchElement_lock E tbl (i + 1)).bind fun _ =>
    (storeNumber_lock E bar (Lock.setPUser i) (Lock.pure _)).bind fun _ => Lock.popAbove bar

/-! ### The parts of a simulation -/

/-- The user cells are the host's, the same for both. -/
theorem storePUser_lock : Lock (storePUser E) := by
  refine (Lock.onL _).bind fun _ => Couples.bind (Lockstep.countUp fun i => ?_) fun _ => Lock.onL _
  refine (Lock.onL _).bind fun _ => .get (fun s t h => by rw [h.host]) fun s => ?_
  exact (Lock.onL _).bind fun _ => Lock.onL _

theorem readStartResult_lock (bar : Int) : Lock (readStartResult E bar) :=
  ((Twins.observes _).emit _).bind fun _ =>
    takeTable_lock bar 1 (fun s t h => by rw [h.gNumOutputs]) (readStartOutput_lock E bar)
      (Lock.setError 1)

/-- A session starts in both, or is stopped in both by the same error. -/
theorem startSession_lock : Lock (startSession E) := by
  have O : Observes (Twins (σ := σ) markerSize) := Twins.observes _
  refine O.height.bind fun bar => (storePUser_lock E).bind fun _ => ?_
  refine Couples.bind ?_ fun _ => O.check _
  refine (callHook_lock E .gSimStart (fun _ => Lock.onL _) 1).bind fun found => ?_
  refine .ite ?_ (Lock.pure _)
  refine (readStartResult_lock E bar).bind fun _ => ?_
  exact (Lock.setPOutput 0 plOk).bind fun _ => Lock.setError 0

/-- What the console does depends on its flag, which twins need not share, and
changes nothing that they do. -/
theorem consoleStep_lock : Lock (consoleStep (σ := σ)) := by
  refine Couples.bind (S := Twins markerSize) (.modify fun s t h => ?_)
    fun _ => .modify fun s t h => ?_
  -- the window is opened in both, in one of them or in neither
  · split
    · split
      · exact { h with }
      · exact { h with }
    · split
      · exact { h with }
      · exact h
  · split
    · split
      · exact { h with }
      · exact { h with }
    · split
      · exact { h with }
      · exact h

/-- With the same error flag, both report the error or both call `gCalculate`.
-/
theorem runStep_lock : Lock (runStep E) := by
  have O : Observes (Twins (σ := σ) markerSize) := Twins.observes _
  refine consoleStep_lock.bind fun _ => .get (fun s t h => by rw [h.gERROR]) fun s => .ite ?_ ?_
  · exact Lock.setPOutput 0 plError
  · refine O.height.bind fun bar => Couples.bind ?_ fun _ => O.check _
    refine (callHook_lock E .gCalculate pushPString_lock 1).bind fun found => ?_
    refine .ite ?_ (Lock.setError 1)
    exact (O.emit _).bind fun _ => takeTable_lock bar 1 (fun s t h => by rw [h.gNumOutputs])
      (readOutput_lock E bar) (Lock.setError 1)

/-- With the same error flag, both call `gSimStop` or neither does. -/
theorem stopScript_lock : Lock (stopScript E) := by
  have O : Observes (Twins (σ := σ) markerSize) := Twins.observes _
  refine .get (fun s t h => by rw [h.gERROR]) fun s => .ite ?_ (Lock.pure _)
  refine Couples.bind (S := Twins markerSize) ?_ fun _ => ?_
  · exact (callHook_lock E .gSimStop (fun _ => Lock.onL _) 0).bind fun found =>
      .ite (Lock.pure _) (Lock.setError 1)
  · refine O.height.bind fun bar => (Lock.onL _).bind fun _ => (Lock.onL _).bind fun _ => ?_
    exact (O.emit _).bind fun _ => takeTable_lock bar 0 (fun _ _ _ => rfl) (readPUser_lock E bar)
      (Lock.pure _)

/-- The stop ends both sessions the same way, whether the console is shown or
not. -/
theorem cSimStop_lock : Lock (cSimStop E) := by
  refine (stopScript_lock E).bind fun _ => (Twins.observes _).closeLuaScript.bind fun _ => ?_
  refine .modify fun s t h => ?_
  split
  · split
    · exact { h with }
    · exact { h with }
  · split
    · exact { h with }
    · exact h

end Lock

/-! ### Names -/

section Names

variable {R : Dll σ → Dll σ → Prop}

theorem Observes.readName (O : Observes R) {mark : DllM σ PUnit} (hm : Lockstep R mark) :
    Lockstep R (readName E mark) := by
  refine (O.onL _).bind fun isString => .ite ?_ (Observes.pure _)
  refine (O.onL _).bind fun text => Couples.bind ?_ fun _ => Observes.pure _
  exact .ite hm (Observes.pure _)

theorem Observes.askName (O : Observes R) (hook : Hook) {mark : DllM σ PUnit}
    (hm : Lockstep R mark) (channel : UChar) : Lockstep R (askName E hook mark channel) := by
  refine O.height.bind fun bar => (O.onL _).bind fun _ => (O.onL _).bind fun _ => ?_
  refine (O.onL _).bind fun isFunction => .ite ?_ (Observes.pure _)
  refine (O.onL _).bind fun _ => (O.emit _).bind fun _ => (O.onL _).bind fun _ => ?_
  exact (O.readName E hm).bind fun name => (O.popAbove bar).bind fun _ => Observes.pure _

variable {heap : Heap σ} (memory : ∀ n, E.luaOpen n = some heap)

include memory

/-- A name query reads nothing that twins do not share. -/
theorem Observes.nameQuery (O : Observes R) (reserved : String) (hook : Hook)
    {mark : Nat → UChar → DllM σ PUnit} (channel : UChar)
    (hm : Lockstep R (mark channel.toNat 1)) :
    Lockstep R (nameQuery E reserved hook mark channel) := by
  refine .ite (Observes.pure _) ((O.openLuaScript E memory .query).bind fun opened => ?_)
  refine .ite ?_ (Observes.pure _)
  exact (O.askName E hook hm channel).bind fun name =>
    O.closeLuaScript.bind fun _ => Observes.pure _

/-- A name query of an input sets its marker in both if the name says so. -/
theorem getInputName_lock (channel : UChar) : Lock (getInputName E channel) :=
  (Twins.observes _).nameQuery E memory "CONSOLE" .gInputName channel (Lock.markInput _ 1)

theorem getOutputName_lock (channel : UChar) : Lock (getOutputName E channel) :=
  (Twins.observes _).nameQuery E memory "ERROR" .gOutputName channel (Lock.markOutput _ 1)

omit memory in
/-- One round of clearing makes the markers of one more channel the same. From
the last round on that is all of them. -/
theorem clearMarkers_round {i : Nat} :
    Couples (Twins (σ := σ) i) (Twins (i + 1)) (do
      markInput i 0
      markOutput i 0) := by
  have extend : ∀ {f g : Nat → UChar}, (∀ j < i, f j = g j) →
      ∀ j < i + 1, Function.update f i 0 j = Function.update g i 0 j := by
    intro f g same j lt
    by_cases here : j = i
    · rw [here, Function.update_self, Function.update_self]
    · rw [Function.update_of_ne here, Function.update_of_ne here]
      exact same j (by omega)
  refine .of_alike fun s t twins => ?_
  unfold markInput markOutput
  by_cases inside : i < markerSize
  · rw [if_pos inside, if_pos inside]
    exact ⟨rfl, { twins with
      gInStrMarker := extend twins.gInStrMarker
      gOutStrMarker := extend twins.gOutStrMarker }⟩
  · rw [if_neg inside]
    exact rfl

/-- Setting the markers up again makes them the same, whatever they were before:
all are cleared, and then set by what the same script answers. -/
theorem queryMarkers_couples : Couples (Twins 0) (Twins markerSize) (queryMarkers E) := by
  have O : Observes (Twins (σ := σ) markerSize) := Twins.observes _
  have clear : Couples (Twins (σ := σ) 0) (Twins markerSize) (countUp 0 markerSize fun i => do
      markInput i 0
      markOutput i 0) := Couples.countUp Twins (Nat.zero_le _) fun i _ _ => clearMarkers_round
  refine clear.bind fun _ => .get (fun s t h => by rw [h.gNumInputs]) fun s => ?_
  refine Couples.bind (S := Twins markerSize) (Lockstep.countUp fun i => ?_) fun _ => ?_
  · exact (getInputName_lock E memory i.toUInt8).bind fun name => O.emit _
  · refine .get (fun s t h => by rw [h.gNumOutputs]) fun s => Lockstep.countUp fun i => ?_
    exact (getOutputName_lock E memory i.toUInt8).bind fun name => O.emit _

end Names

/-! ### The start -/

/-- What a start depends on: neither the error flag nor a marker. -/
structure Fresh (s t : Dll σ) : Prop where
  L : s.L = t.L
  gNumInputs : s.gNumInputs = t.gNumInputs
  gNumOutputs : s.gNumOutputs = t.gNumOutputs
  gFileNum : s.gFileNum = t.gFileNum
  gCSimStartOverride : s.gCSimStartOverride = t.gCSimStartOverride
  host : s.host = t.host

/-- What twins share is all that a start depends on. -/
theorem Twins.fresh {n : Nat} {s t : Dll σ} (h : Twins n s t) : Fresh s t :=
  { h with }

/-- The pin of the console is an input of the host, so it is high for both. -/
theorem consoleStart_couples {n : Nat} : Lockstep (Twins (σ := σ) n) consoleStart := by
  refine .modify fun s t h => ?_
  split
  · split
    · exact { h with }
    · exact { h with }
  · split
    · exact { h with }
    · exact h

variable {heap : Heap σ} (memory : ∀ n, E.luaOpen n = some heap)

include memory

/-- The start clears the markers and sets the error pin, so states that agree on
less than twins are twins after it. -/
theorem cSimStartFlaw_couples : Couples Fresh (Twins markerSize) (cSimStartFlaw E) := by
  have error : Couples (Fresh (σ := σ)) (Twins 0) (setError 1) :=
    .modify fun s t h => { h with
      gERROR := rfl
      gInStrMarker := fun _ no => absurd no (Nat.not_lt_zero _)
      gOutStrMarker := fun _ no => absurd no (Nat.not_lt_zero _) }
  have output : Lockstep (Twins (σ := σ) 0) (setPOutput 0 plError) :=
    .modify fun s t h => { h with host := by rw [h.host] }
  refine error.bind fun _ => output.bind fun _ => consoleStart_couples.bind fun _ => ?_
  refine (queryMarkers_couples E memory).bind fun _ => ?_
  exact ((Twins.observes _).openLuaScript E memory .session).bind fun opened =>
    .ite (startSession_lock E) (Lock.pure _)

/-- The first step, which does the start, so that neither the error flag nor a
marker of the session before matters. -/
theorem cCalculateEx_couples {s t : Dll σ} (h : Fresh s t) (pending : s.gCSimStartOverride ≠ 0) :
    Alike (Twins markerSize) (cCalculateEx E s) (cCalculateEx E t) := by
  have first : Couples (fun u v : Dll σ => Fresh u v ∧ u.gCSimStartOverride ≠ 0)
      (Twins markerSize) (startOverride E) := by
    refine .of_alike fun u v ⟨fresh, pending⟩ => ?_
    have pending' : v.gCSimStartOverride ≠ 0 := fresh.gCSimStartOverride ▸ pending
    unfold startOverride
    rw [run_bind_ok (run_get u), run_bind_ok (run_get v), if_pos pending, if_pos pending']
    have reset : Couples Fresh (Twins markerSize) (cSimStartFlaw E >>= fun _ =>
        modify fun s => { s with gCSimStartOverride := 0 }) :=
      (cSimStartFlaw_couples E memory).bind fun _ =>
        .modify fun s t h => { h with gCSimStartOverride := rfl }
    exact reset.alike fresh
  exact (first.bind fun _ => runStep_lock E).alike ⟨h, pending⟩

/-- Every step, with the start pending in both or in neither. -/
theorem cCalculateEx_lock : Lock (cCalculateEx E) := by
  refine Couples.bind (S := Twins markerSize) ?_ fun _ => runStep_lock E
  refine .get (fun s t h => by rw [h.gCSimStartOverride]) fun s => .ite ?_ (Lock.pure _)
  refine Couples.bind (S := Twins markerSize) ?_ fun _ =>
    .modify fun s t h => { h with gCSimStartOverride := rfl }
  exact (cSimStartFlaw_couples E memory).mono (fun _ _ h => h.fresh) fun _ _ h => h

end ProfiLua
