import ProfiLua.Dll.Frame
import ProfiLua.Lua.Run

/-!
Calling the script: the argument table and the call itself.

`pushInputs` builds one table, the array of the inputs, whatever the stack and
the heap were (`run_pushInputs`). A call of a script function either finds it
and replaces it by its results, or leaves on the stack what it found in its
place; nothing else changes (`callHook_outcome`).
-/

namespace ProfiLua

open Program

variable {σ : Type} (E : Env σ)

/-- A pop that stays above the bar. -/
theorem run_popAbove {s : Dll σ} {v : TValue} {rest : List TValue} {heap : Heap σ} {bar : Int}
    (above : bar ≤ rest.length - 1) :
    popAbove bar (s.withL ⟨v :: rest, heap⟩) = .ok ⟨⟩ (s.withL ⟨rest, heap⟩) :=
  ok_bind (run_onL run_luaPop_one) (run_check_pass (decide_eq_true above))

/-! ### The argument table -/

/-- The channel counts of a simulation: the reserved pin counts as one, and every
channel has a marker. -/
structure Dll.CountsFit (s : Dll σ) : Prop where
  inputs_pos : 1 ≤ s.gNumInputs.toNat
  inputs_le : s.gNumInputs.toNat ≤ markerSize
  outputs_le : s.gNumOutputs.toNat ≤ markerSize

instance (s : Dll σ) : Decidable s.CountsFit :=
  decidable_of_iff (1 ≤ s.gNumInputs.toNat ∧ s.gNumInputs.toNat ≤ markerSize ∧
    s.gNumOutputs.toNat ≤ markerSize) ⟨fun ⟨a, b, c⟩ => ⟨a, b, c⟩, fun ⟨a, b, c⟩ => ⟨a, b, c⟩⟩

theorem Dll.CountsFit.of_counts {s t : Dll σ} (fit : s.CountsFit)
    (inputs : t.gNumInputs = s.gNumInputs) (outputs : t.gNumOutputs = s.gNumOutputs) :
    t.CountsFit := by
  obtain ⟨a, b, c⟩ := fit
  rw [← inputs] at a b
  rw [← outputs] at c
  exact ⟨a, b, c⟩

/-- The entry of input `i`: `text i` for a string pin. -/
def inputEntry (s : Dll σ) (text : Nat → TValue) (i : Nat) : TValue :=
  if s.gInStrMarker i ≠ 0 then text i else .number (s.host.pInput i)

/-- The array of the inputs `1 .. gNumInputs - 1`. -/
def inputTable (s : Dll σ) (text : Nat → TValue) : Table :=
  arrayTable (inputEntry s text) (s.gNumInputs.toNat - 1)

/-- The entry of a channel in the argument table. -/
theorem inputTable_node (s : Dll σ) (text : Nat → TValue) {i : Nat} (pos : 1 ≤ i)
    (lt : i < s.gNumInputs.toNat) :
    (inputTable s text).node (.number (.ofNat i)) = inputEntry s text i :=
  arrayTable_node _ pos (by omega)

theorem inputTable_other (s : Dll σ) (text : Nat → TValue) {key : TValue}
    (other : ∀ i, 1 ≤ i → i < s.gNumInputs.toNat → key ≠ .number (.ofNat i)) :
    (inputTable s text).node key = .nil :=
  arrayTable_node_other _ fun i pos le => other i pos (by omega)

/-- How `marked` pushes the entry of a string pin. -/
def Pushes (s : Dll σ) (marked : Nat → DllM σ PUnit) (text : Nat → TValue) : Prop :=
  ∀ i l, marked i (s.withL l) = .ok ⟨⟩ (s.withL ⟨text i :: l.stack, l.heap⟩)

variable {s : Dll σ} {marked : Nat → DllM σ PUnit} {text : Nat → TValue}

/-- At the start and the stop a string pin is passed as the number 0. -/
theorem stringDummy_pushes : Pushes s stringDummy fun _ => .number (.fin 0) :=
  fun _ _ => rfl

/-- In a step a string pin is passed as its text, up to the first NUL. -/
theorem pushPString_pushes : Pushes s pushPString fun i => .string (cstr (s.host.pString i)) :=
  fun _ _ => rfl

/-- The entry of one input: its number, or what `marked` pushes for a string pin. -/
theorem run_pushInput (pushes : Pushes s marked text) {i : Nat} (inside : i < markerSize)
    (l : LuaState σ) :
    pushInput marked i (s.withL l) =
      .ok ⟨⟩ (s.withL ⟨inputEntry s text i :: l.stack, l.heap⟩) := by
  refine ok_bind (run_inMarked inside _) ?_
  by_cases mark : s.gInStrMarker i ≠ 0
  · rw [inputEntry, if_pos mark]
    exact ok_ite_true (decide_eq_true mark) (pushes i l)
  · rw [inputEntry, if_neg mark]
    exact ok_ite_false (fun h => mark (of_decide_eq_true h)) rfl

/-- The loop leaves the array of the inputs on the stack, in a table of its own. -/
theorem run_pushInputs (pushes : Pushes s marked text) (fit : s.CountsFit) (stack : List TValue)
    (heap : Heap σ) :
    pushInputs E marked (s.withL ⟨stack, heap⟩) =
      .ok ⟨⟩ (s.withL ⟨.table heap.bound :: stack, heap.alloc (inputTable s text)⟩) := by
  have pos := fit.inputs_pos
  have le := fit.inputs_le
  refine ok_bind (run_get _) (ok_bind (run_onL (run_luaCreatetable ?_)) ?_)
  · rw [Dll.withL_gNumInputs]
    omega
  -- after the rounds before `i` the table holds the entries before `i`
  refine run_countUp (fun i => s.withL ⟨.table heap.bound :: stack,
    heap.alloc (arrayTable (inputEntry s text) (i - 1))⟩) pos fun i low high => ?_
  rw [Dll.withL_gNumInputs] at high
  obtain ⟨k, rfl⟩ := Nat.exists_eq_add_of_le' low
  refine ok_bind (run_onL (run_push _ _)) (ok_bind (run_pushInput pushes (by omega) _) ?_)
  exact run_onL (run_luaSettable E (arrayTable_metatable _ _))

/-! ### The call -/

/-- An error raised by Lua code reached an unprotected call. -/
def Stop.Raised (e : Stop) : Prop := ∃ reason, e = .lua reason ∧ reason.Raised

/-- The script stopped the DLL before it changed anything but `L` and the record. -/
def Interrupted (s : Dll σ) (e : Stop) (t : Dll σ) : Prop :=
  e.Raised ∧ ∃ events l, t = (s.note events).withL l

/-- The record of a reply. -/
abbrev Dll.replied (s : Dll σ) (source : Source) (reply : Reply) : Dll σ :=
  s.note [.reply source s.gNumOutputs.toNat s.outputMarks reply]

/-- The record of a call of a script function. -/
abbrev Dll.called (s : Dll σ) (hook : Hook) (text : Nat → TValue) : Dll σ :=
  s.note [.activation (.hook hook) (some (inputTable s text))]

/-- The script function was found and, called with the inputs, returned `values`. -/
def Answered (s : Dll σ) (hook : Hook) (text : Nat → TValue) (heap : Heap σ)
    (values : List TValue) (heap' : Heap σ) : Prop :=
  ∃ f heap₁, Looked E heap.globals (.string (lit hook.name)) heap (.function f) heap₁ ∧
    E.call (.function f) [.table heap₁.bound] (heap₁.alloc (inputTable s text)) =
      .returned values heap'

/-- There was no such function but `v` in its place. -/
def NotFound (hook : Hook) (heap : Heap σ) (v : TValue) (heap' : Heap σ) : Prop :=
  Looked E heap.globals (.string (lit hook.name)) heap v heap' ∧ v.type ≠ .function

/-- The lookup and the call change the heap, and the argument table is new in
it. All of it is something a script can do to a heap. -/
theorem Answered.evolves {hook : Hook} {heap heap' : Heap σ} {values : List TValue}
    (h : Answered E s hook text heap values heap') : Evolves E heap heap' := by
  obtain ⟨f, heap₁, looked, called⟩ := h
  exact (looked.evolves.tail (.alloc _ _)).tail (.call called)

/-- Looking up what is not there may still run a metamethod. -/
theorem NotFound.evolves {hook : Hook} {heap heap' : Heap σ} {v : TValue}
    (h : NotFound E hook heap v heap') : Evolves E heap heap' :=
  h.1.evolves

theorem Hook.cstr_name (hook : Hook) : cstr (lit hook.name) = lit hook.name := by
  cases hook <;> rfl

theorem TValue.eq_function {v : TValue} (h : v.type = .function) : ∃ f, v = .function f := by
  cases v with
  | function f => exact ⟨f, rfl⟩
  | _ => cases h

/-- Everything a call of a script function can do: the function is found and
answers, something else is found and its absence noted, or the script raises an
error, in the lookup or in the call. The argument is the table of the inputs,
new in the heap. -/
theorem callHook_outcome (hook : Hook) (pushes : Pushes s marked text) (fit : s.CountsFit)
    (nresults : Nat) (stack : List TValue) (heap : Heap σ) :
    Ensures (callHook E hook marked nresults) (s.withL ⟨stack, heap⟩)
      (fun found t => if found then
          ∃ values heap', Answered E s hook text heap values heap' ∧ t = (s.called hook text).withL
            ⟨(adjustResults nresults values).reverse ++ stack, heap'⟩
        else ∃ v heap', NotFound E hook heap v heap' ∧
          t = (s.replied (.result hook) .missing).withL ⟨v :: stack, heap'⟩)
      (Interrupted s) := by
  refine .step (run_onL (run_push _ _)) ?_
  have lookup : Ensures (onL (luaGettable E globalsIndex))
      (s.withL ⟨.string (cstr (lit hook.name)) :: stack, heap⟩)
      (fun _ t => ∃ v heap', Looked E heap.globals (.string (lit hook.name)) heap v heap' ∧
        t = s.withL ⟨v :: stack, heap'⟩) (Interrupted s) := by
    rw [Hook.cstr_name]
    exact ensures_onL ((luaGettable_globals_rule E _).mono (fun _ l ⟨v, heap', same, looked⟩ =>
      ⟨v, heap', looked, by rw [same]⟩) fun e l raised =>
        ⟨⟨e, rfl, raised⟩, [], l, by simp [Dll.note]⟩)
  refine lookup.bind fun _ t ⟨v, heap', looked, same⟩ => ?_
  subst same
  refine .step (run_onL (run_luaHasType .function)) (.ite (fun isFunction => ?_) fun no => ?_)
  · obtain ⟨f, rfl⟩ := TValue.eq_function (of_decide_eq_true isFunction)
    refine .step (run_pushInputs E pushes fit _ _) (.step (run_emit _ _) ?_)
    have argument : (heap'.alloc (inputTable s text)).table heap'.bound = inputTable s text := by
      simp
    simp only [Dll.withL_L, argument, Dll.note_withL]
    have call : Ensures (onL (luaCall E 1 nresults))
        ((s.called hook text).withL
          ⟨.table heap'.bound :: .function f :: stack, heap'.alloc (inputTable s text)⟩)
        (fun _ t => ∃ values heap', Answered E s hook text heap values heap' ∧
          t = (s.called hook text).withL ⟨(adjustResults nresults values).reverse ++ stack, heap'⟩)
        (Interrupted s) := by
      refine ensures_onL ((luaCall_rule E (.function f) [.table heap'.bound] rfl (by simp)
        nresults).mono ?_ ?_)
      · rintro _ l ⟨values, heap'', called, rfl⟩
        exact ⟨values, heap'', ⟨f, heap', looked, called⟩, rfl⟩
      · exact fun e l raised => ⟨⟨e, rfl, raised⟩, _, l, rfl⟩
    exact call.bind fun _ t done => .pure done
  · have noFunction : v.type ≠ .function := fun isFunction => no (decide_eq_true isFunction)
    exact .step (run_emit _ _) (.pure ⟨v, heap', ⟨looked, noFunction⟩, rfl⟩)

/-! ### Any counts -/

/-- Whatever the counts are, the loop leaves one value if it returns. With a
count of 0 the size hint is negative, and with more than 100 inputs a marker is
read that is not there: both stop. -/
theorem pushInputs_returns (pushes : Pushes s marked text) (stack : List TValue) (heap : Heap σ) :
    Ensures (pushInputs E marked) (s.withL ⟨stack, heap⟩)
      (fun _ t => ∃ v heap', t = s.withL ⟨v :: stack, heap'⟩) (fun _ _ => True) := by
  refine .step (run_get _) ?_
  by_cases pos : 1 ≤ s.gNumInputs.toNat
  swap
  -- a size hint of -1 asks for more memory than there is
  · have none : ∃ l, luaCreatetable (((s.withL ⟨stack, heap⟩).gNumInputs.toNat : Int) - 1)
        ⟨stack, heap⟩ = .error .memory l := by
      refine ⟨⟨stack, heap⟩, ?_⟩
      unfold luaCreatetable
      rw [run_bind_ok (run_get _), Dll.withL_gNumInputs, if_pos (by omega)]
      rfl
    obtain ⟨l, memory⟩ := none
    rw [ensures_bind]
    exact .of_error (onL_error rfl memory) trivial
  refine .step (run_onL (run_luaCreatetable ?_)) ?_
  · rw [Dll.withL_gNumInputs]
    omega
  have loop : Ensures (countUp 1 s.gNumInputs.toNat fun i => do
      onL (luaPushnumber (.ofNat i))
      pushInput marked i
      onL (luaSettable E (-3)))
      (s.withL ⟨.table heap.bound :: stack, heap.alloc .empty⟩)
      (fun _ t => ∃ T : Table, T.metatable = false ∧
        t = s.withL ⟨.table heap.bound :: stack, heap.alloc T⟩) (fun _ _ => True) :=
    Ensures.countUp (fun _ t => ∃ T : Table, T.metatable = false ∧
      t = s.withL ⟨.table heap.bound :: stack, heap.alloc T⟩) pos ⟨.empty, rfl, rfl⟩
      fun i _ _ t ⟨T, plain, same⟩ => by
      subst same
      refine .step (run_onL (run_push _ _)) ?_
      by_cases inside : i < markerSize
      · refine .step (run_pushInput pushes inside _) ?_
        exact .of_ok (run_onL (run_luaSettable E plain)) ⟨T.store _ _, plain, rfl⟩
      · have outside : Ensures (inMarked i) (s.withL ⟨.number (.ofNat i) :: .table heap.bound ::
            stack, heap.alloc T⟩) (fun _ _ => False) (fun _ _ => True) :=
          .ite (fun h => absurd h inside) fun _ => .throw trivial
        rw [ensures_bind]
        exact outside.bind fun _ _ no => no.elim
  exact loop.mono (fun _ _ ⟨T, _, same⟩ => ⟨_, _, same⟩) fun _ _ h => h

/-- Whatever the counts are, a call that returns leaves one value, and notes a
function that is missing. Only the height of the stack is said here, for the
calls whose counts nothing is known of. -/
theorem callHook_returns (hook : Hook) (pushes : Pushes s marked text) (stack : List TValue)
    (heap : Heap σ) :
    Ensures (callHook E hook marked 1) (s.withL ⟨stack, heap⟩)
      (fun found t => ∃ v heap' events, t = (s.note events).withL ⟨v :: stack, heap'⟩ ∧
        (found = false → events = [.reply (.result hook) s.gNumOutputs.toNat s.outputMarks
          .missing])) (fun _ _ => True) := by
  refine .step (run_onL (run_push _ _)) ?_
  have lookup : Ensures (onL (luaGettable E globalsIndex))
      (s.withL ⟨.string (cstr (lit hook.name)) :: stack, heap⟩)
      (fun _ t => ∃ v heap', t = s.withL ⟨v :: stack, heap'⟩) (fun _ _ => True) :=
    ensures_onL ((luaGettable_globals_rule E _).mono (fun _ l ⟨v, heap', same, _⟩ =>
      ⟨v, heap', by rw [same]⟩) fun _ _ _ => trivial)
  refine lookup.bind fun _ t ⟨v, heap', same⟩ => ?_
  subst same
  refine .step (run_onL (run_luaHasType .function)) (.ite (fun _ => ?_) fun _ => ?_)
  · refine (pushInputs_returns E pushes _ _).bind fun _ t ⟨w, heap₁, same⟩ => ?_
    subst same
    refine .step (run_emit _ _) ?_
    simp only [Dll.note_withL]
    have call : ∀ events, Ensures (onL (luaCall E 1 1))
        ((s.note events).withL ⟨w :: v :: stack, heap₁⟩)
        (fun _ t => ∃ r heap₂, t = (s.note events).withL ⟨r :: stack, heap₂⟩)
        (fun _ _ => True) := by
      intro events
      refine ensures_onL ((luaCall_rule E v [w] rfl (by simp) 1).mono ?_ fun _ _ _ => trivial)
      rintro _ l ⟨values, heap₂, _, rfl⟩
      exact ⟨values.headD .nil, heap₂, by rw [adjustResults_one]; rfl⟩
    exact (call _).bind fun _ t ⟨r, heap₂, same⟩ =>
      .pure ⟨r, heap₂, _, same, fun no => Bool.noConfusion no⟩
  · exact .step (run_emit _ _) (.pure ⟨v, heap', _, rfl, fun _ => rfl⟩)

end ProfiLua
