import Mathlib.Tactic.IntervalCases
import ProfiLua.Dll.Query

/-!
What the string markers say after a start.

The start clears all markers and asks for every name again, each in a Lua state
of its own. `nameAnswer` is what the script says there to one question. The
markers then are those of the channels whose name starts with `$`, whatever they
were before, and they stay until the next name is asked (`markers_reflect`).
-/

namespace ProfiLua

open Program

variable {σ : Type} (E : Env σ)

/-! ### Asking the script -/

/-- The heap after a chunk was loaded and run. -/
def chunkHeap (loaded : TValue × Heap σ) : Heap σ :=
  match E.call loaded.1 [] loaded.2 with
  | .returned _ heap => heap
  | .raised _ heap => heap

/-- The heap of a new Lua state after the script file was run in it. -/
def scriptHeap (file : UChar) (heap : Heap σ) : Heap σ :=
  chunkHeap E (E.load file (E.luaLOpenlibs heap))

/-- What a name function answers for a channel: nothing if there is no such
function. The outer `none` is an error the script raises. -/
def nameAnswer (hook : Hook) (channel : UChar) (heap : Heap σ) : Option (Option TValue) :=
  match entry E heap.globals (.string (lit hook.name)) heap with
  | none => none
  | some (.function f, heap) =>
      match E.call (.function f) [.number (.ofNat channel.toNat)] heap with
      | .returned values _ => some (some (values.headD .nil))
      | .raised _ _ => none
  | some _ => some none

/-- The answer in the Lua state that a query is about to open; without memory for
one there is none. -/
def nextAnswer (s : Dll σ) (hook : Hook) (channel : UChar) : Option (Option TValue) :=
  match E.luaOpen s.epoch with
  | none => some none
  | some heap => nameAnswer E hook channel (scriptHeap E s.gFileNum heap)

/-- The answer is a string that starts with `$`. -/
def NamesString (answer : Option TValue) : Prop :=
  ∃ text, answer = some (.string text) ∧ text.head? = some dollar

/-- The answer marks its channel, as the code sees it: numbers are texts too. -/
def marksString (C : CLib) : Option TValue → Bool
  | some v => v.isstring && decide ((cstr (v.text C)).head? = some dollar)
  | none => false

/-- What the query writes as the name. -/
def nameText (C : CLib) : Option TValue → Bytes
  | some v => if v.isstring then cstr (v.text C) else lit "!ERROR!"
  | none => lit "!ERROR!"

/-- The input markers and the output markers. -/
abbrev Marks := (Nat → UChar) × (Nat → UChar)

def Dll.marks (s : Dll σ) : Marks := (s.gInStrMarker, s.gOutStrMarker)

/-- Cutting a text at its first NUL leaves the first character, unless that is the
NUL. -/
theorem cstr_head {b : UInt8} (ne : b ≠ 0) (s : Bytes) :
    (cstr s).head? = some b ↔ s.head? = some b := by
  cases s with
  | nil => exact Iff.rfl
  | cons a rest =>
      by_cases zero : a = 0
      · subst zero
        simp [cstr, Ne.symm ne]
      · simp [cstr, zero]

/-- With numbers written as `sprintf` does, never with a `$`, it is only strings
that mark. -/
theorem marksString_iff (numbers : ∀ d, (E.number2str d).head? ≠ some dollar)
    (answer : Option TValue) : marksString E.toCLib answer = true ↔ NamesString answer := by
  have ne : dollar ≠ 0 := by decide
  constructor
  · intro marks
    rcases answer with _ | v
    · cases marks
    simp only [marksString, Bool.and_eq_true, decide_eq_true_eq, cstr_head ne] at marks
    obtain ⟨isString, text⟩ := marks
    cases v with
    | string bytes => exact ⟨bytes, rfl, text⟩
    | number d => exact absurd text (numbers d)
    | _ => cases isString
  · rintro ⟨bytes, rfl, text⟩
    simp only [marksString, Bool.and_eq_true, decide_eq_true_eq, cstr_head ne]
    exact ⟨rfl, text⟩

/-! ### One name -/

section Name

variable {E} {s : Dll σ} {stack : List TValue} {heap heap' : Heap σ} {A : Stop → Dll σ → Prop}

/-- Whether the chunk returns or raises an error, the heap is the one it left. -/
theorem luaPcall_heap (func : TValue) :
    Ensures (luaPcall E) ⟨func :: stack, heap⟩
      (fun _ l => l.heap = chunkHeap E (func, heap)) (fun _ _ => False) := by
  refine .step run_valueAt_top ?_
  rw [ensures_bind, ensures_get]
  simp only [chunkHeap]
  cases E.call func [] heap with
  | returned values heap' => exact .modify rfl
  | raised error heap' => exact .modify rfl

/-- The heap after the file has been loaded and run, whatever is on the stack then. -/
theorem runChunk_heap (purpose : Purpose) :
    Ensures (runChunk E purpose) (s.withL ⟨stack, heap⟩)
      (fun _ t => ∃ stack' chunk, t = (s.note chunk).withL
        ⟨stack', chunkHeap E (E.load s.gFileNum heap)⟩) A := by
  have load : onL (luaLLoadfile E s.gFileNum) (s.withL ⟨stack, heap⟩) =
      .ok ⟨⟩ (s.withL ⟨(E.load s.gFileNum heap).1 :: stack, (E.load s.gFileNum heap).2⟩) := rfl
  refine .step (run_get _) (.step load ?_)
  refine (emitChunk_outcome E purpose s stack heap).bind fun _ t ⟨chunk, _, same⟩ => ?_
  subst same
  refine ensures_onL ((luaPcall_heap _).mono (fun _ l last => ?_) fun _ _ no => no.elim)
  exact ⟨l.stack, chunk, by rw [← last]⟩

/-- Opening a closed script, with memory for the Lua state: the chunk has run in
it, and the heap it left is named. -/
theorem openLuaScript_heap (closed : s.L = none) (memory : E.luaOpen s.epoch = some heap)
    (purpose : Purpose) :
    Ensures (openLuaScript E purpose) s
      (fun opened t => opened = true ∧ ∃ stack chunk,
        t = (({ s with epoch := s.epoch + 1 }.note [.luaOpen]).note chunk).withL
          ⟨stack, scriptHeap E s.gFileNum heap⟩) A := by
  have opening := openState_closed E closed
  rw [memory] at opening
  refine .step opening (.ite (fun _ => ?_) fun no => absurd rfl no)
  exact (runChunk_heap purpose).bind fun _ t ⟨stack, chunk, same⟩ =>
    .pure ⟨rfl, stack, chunk, same⟩

/-- `mark` sets a marker, and changes the two arrays by `f`. -/
def Marking (mark : DllM σ PUnit) (f : Marks → Marks) : Prop :=
  ∀ s, mark s = .ok ⟨⟩ { s with
    gInStrMarker := (f s.marks).1
    gOutStrMarker := (f s.marks).2 }

variable {mark : DllM σ PUnit} {f : Marks → Marks} {answer : Option TValue}

/-- The name that is written, and the marker that it sets: only a name that
starts with `$` sets one. A value that is neither string nor number gives
`!ERROR!` and sets none. -/
theorem readName_marks (marking : Marking mark f) (v : TValue) :
    Ensures (readName E mark) (s.withL ⟨v :: stack, heap⟩)
      (fun name t => name = nameText E.toCLib (some v) ∧
        t.marks = (if marksString E.toCLib (some v) then f s.marks else s.marks) ∧
        ∃ v', t.L = some ⟨v' :: stack, heap⟩) A := by
  refine .step (run_onL run_luaIsstring) (.ite (fun isString => ?_) fun no => .pure ?_)
  -- reading a number as text may put the text in its place on the stack
  · obtain ⟨v', read⟩ : ∃ v', luaTostring E ⟨v :: stack, heap⟩ =
        .ok (v.text E.toCLib) ⟨v' :: stack, heap⟩ := run_luaTostring E
    refine .step (run_onL read) ?_
    unfold markString
    by_cases marked : (cstr (v.text E.toCLib)).head? = some dollar
    · rw [if_pos marked]
      refine .step (marking _) (.pure ⟨?_, ?_, v', rfl⟩)
      · simp [nameText, isString]
      · simp [marksString, isString, marked, Dll.marks]
    · rw [if_neg marked]
      refine .pure ⟨?_, ?_, v', rfl⟩
      · simp [nameText, isString]
      · simp [marksString, marked, Dll.marks]
  · refine ⟨?_, ?_, v, rfl⟩
    · simp [nameText, no]
    · simp [marksString, no, Dll.marks]

/-- One question to the script: the name it gives, and whether it marks its
channel. An error raised on the way, in the lookup or in the name function, is
what stops it; that is when `nameAnswer` is nothing. -/
theorem askName_marks (hook : Hook) (channel : UChar) (marking : Marking mark f) :
    Ensures (askName E hook mark channel) (s.withL ⟨stack, heap⟩)
      (fun name t => ∃ answer, nameAnswer E hook channel heap = some answer ∧
        name = nameText E.toCLib answer ∧
        t.marks = if marksString E.toCLib answer then f s.marks else s.marks)
      (fun e _ => e.Raised ∧ nameAnswer E hook channel heap = none) := by
  refine .step run_height (.step (run_onL (run_push _ _)) ?_)
  rw [Hook.cstr_name]
  cases read : entry E heap.globals (.string (lit hook.name)) heap with
  | none =>
      have silent : nameAnswer E hook channel heap = none := by simp only [nameAnswer, read]
      obtain ⟨error, l, raises⟩ := run_luaGettable_raises read stack
      rw [ensures_bind]
      exact .of_error (onL_error rfl raises) ⟨⟨_, rfl, error, rfl⟩, silent⟩
  | some found =>
      obtain ⟨v, heap'⟩ := found
      refine .step (run_onL (run_luaGettable_entry read _)) ?_
      refine .step (run_onL (run_luaHasType .function)) (.ite (fun isFunction => ?_) fun no => ?_)
      · obtain ⟨g, rfl⟩ := TValue.eq_function (of_decide_eq_true isFunction)
        refine .step (run_onL (run_push _ _)) (.step (run_emit _ _) ?_)
        cases result : E.call (.function g) [.number (.ofNat channel.toNat)] heap' with
        | raised error heap'' =>
            have silent : nameAnswer E hook channel heap = none := by
              simp only [nameAnswer, read, result]
            obtain ⟨l, raises⟩ := run_luaCall_raises (.function g) [.number (.ofNat channel.toNat)]
              rfl (by simp) result 1 stack
            rw [ensures_bind]
            exact .of_error (onL_error rfl raises) ⟨⟨_, rfl, error, rfl⟩, silent⟩
        | returned values heap'' =>
            have answers : nameAnswer E hook channel heap = some (some (values.headD .nil)) := by
              simp only [nameAnswer, read, result]
            have call : ∀ events, onL (luaCall E 1 1)
                ((s.note events).withL ⟨.number (.ofNat channel.toNat) :: .function g :: stack,
                  heap'⟩) =
                .ok ⟨⟩ ((s.note events).withL ⟨values.headD .nil :: stack, heap''⟩) := by
              intro events
              have run : luaCall E 1 1 ⟨.number (.ofNat channel.toNat) :: .function g :: stack,
                  heap'⟩ = .ok ⟨⟩ ⟨(adjustResults 1 values).reverse ++ stack, heap''⟩ :=
                run_luaCall (.function g) [_] rfl (by simp) result 1 stack
              rw [adjustResults_one] at run
              exact run_onL run
            refine .step (call _) ((readName_marks marking _).bind fun name t
              ⟨named, marked, v', live⟩ => ?_)
            rw [← Dll.withL_self live]
            exact .step (run_popAbove (Int.le_refl _)) (.pure ⟨_, answers, named, marked⟩)
      · have missing : nameAnswer E hook channel heap = some none := by
          cases v with
          | function g => exact absurd rfl no
          | _ => simp only [nameAnswer, read]
        exact .pure ⟨none, missing, rfl, rfl⟩

end Name

/-! ### A whole query -/

section Query

variable {E} {s : Dll σ} {channel : UChar} {answer : Option TValue} {f : Marks → Marks}
  {A : Stop → Dll σ → Prop}

/-- What a name query that returned has done. -/
structure Named (C : CLib) (s : Dll σ) (reserved : String) (channel : UChar)
    (answer : Option TValue) (f : Marks → Marks) (name : Bytes) (t : Dll σ) : Prop where
  closed : t.L = none
  only : QueriesOnly s t
  name : name = if channel = 0 then lit reserved else nameText C answer
  marks : t.marks = if channel ≠ 0 ∧ marksString C answer then f s.marks else s.marks

/-- Closing the script again leaves the markers alone. -/
theorem closeLuaScript_marks (t : Dll σ) :
    Ensures closeLuaScript t (fun _ u => u.marks = t.marks) A := by
  refine .modify ?_
  split
  · rfl
  · rfl

/-- A whole query, from a closed script: channel 0 is answered without it,
without memory it writes `!ERROR!`, and otherwise what the script answers in the
state that was opened for it. The state is closed again. -/
theorem nameQuery_named (reserved : String) (hook : Hook)
    (hH : ∀ a, Event.OfQuery (.activation (.hook hook) a)) {mark : Nat → UChar → DllM σ PUnit}
    (frame : ∀ i c, Within .opened QueriesOnly (mark i c))
    (marking : Marking (mark channel.toNat 1) f) (closed : s.L = none) :
    Ensures (nameQuery E reserved hook mark channel) s
      (fun name t => ∃ answer, (channel ≠ 0 → nextAnswer E s hook channel = some answer) ∧
        Named E.toCLib s reserved channel answer f name t)
      (fun e _ => e.Raised ∧ channel ≠ 0 ∧ nextAnswer E s hook channel = none) := by
  have within : Within .closed QueriesOnly (nameQuery E reserved hook mark channel) :=
    nameQuery_within E QueriesOnly.frame.toOpeningFrame (fun _ h => h) (by simp) reserved hH frame
      channel
  have named : Ensures (nameQuery E reserved hook mark channel) s
      (fun name t => ∃ answer, (channel ≠ 0 → nextAnswer E s hook channel = some answer) ∧
        name = (if channel = 0 then lit reserved else nameText E.toCLib answer) ∧
        t.marks = if channel ≠ 0 ∧ marksString E.toCLib answer then f s.marks else s.marks)
      (fun e _ => e.Raised ∧ channel ≠ 0 ∧ nextAnswer E s hook channel = none) := by
    refine .ite (fun zero => .pure ⟨none, fun ne => absurd zero ne, ?_, ?_⟩) fun ne => ?_
    · rw [if_pos zero]
    · rw [if_neg (fun both => both.1 zero)]
    cases memory : E.luaOpen s.epoch with
    | none =>
        have silent : nextAnswer E s hook channel = some none := by simp only [nextAnswer, memory]
        have opening := openState_closed E closed
        rw [memory] at opening
        have failed : openLuaScript E .query s = .ok false { s with epoch := s.epoch + 1 } :=
          ok_bind opening (ok_ite_false (by decide) rfl)
        refine .step failed (.ite (fun no => absurd no (by decide)) fun _ => .pure ?_)
        refine ⟨none, fun _ => silent, ?_, ?_⟩
        · rw [if_neg ne]
          rfl
        · rw [if_neg (fun both => Bool.noConfusion both.2)]
          rfl
    | some heap =>
        have answers : nextAnswer E s hook channel =
            nameAnswer E hook channel (scriptHeap E s.gFileNum heap) := by
          simp only [nextAnswer, memory]
        rw [answers]
        refine (openLuaScript_heap closed memory .query).bind
          fun opened t ⟨yes, stack, chunk, same⟩ => ?_
        subst same
        refine .ite (fun _ => ?_) fun no => absurd yes no
        refine ((askName_marks hook channel marking).mono (fun _ _ h => h)
          fun e _ h => ⟨h.1, ne, h.2⟩).bind fun name u ⟨answer, answered, text, marked⟩ => ?_
        refine (closeLuaScript_marks u).bind fun _ v kept => ?_
        refine .pure ⟨answer, fun _ => answered, ?_, ?_⟩
        · rw [if_neg ne, text]
        · rw [kept, marked]
          simp only [ne, ne_eq, not_false_eq_true, true_and]
          rfl
  exact (named.and (within s closed)).mono
    (fun name t ⟨⟨answer, answered, text, marked⟩, shut, only⟩ =>
      ⟨answer, answered, shut, only, text, marked⟩) fun _ _ stop => stop.1

/-- Setting a marker of an input, as a change of the two arrays. -/
def Marks.input (i : Nat) (m : Marks) : Marks := (Function.update m.1 i 1, m.2)

def Marks.output (i : Nat) (m : Marks) : Marks := (m.1, Function.update m.2 i 1)

theorem markInput_marking {i : Nat} (inside : i < markerSize) :
    Marking (markInput (σ := σ) i 1) (Marks.input i) := by
  intro s
  unfold markInput
  rw [if_pos inside]
  rfl

theorem markOutput_marking {i : Nat} (inside : i < markerSize) :
    Marking (markOutput (σ := σ) i 1) (Marks.output i) := by
  intro s
  unfold markOutput
  rw [if_pos inside]
  rfl

/-- A query for channel `i`, with the name it gives. -/
def Queried (E : Env σ) (reserved : String) (hook : Hook) (f : Nat → Marks → Marks) (s : Dll σ)
    (i : Nat) (name : Bytes) (t : Dll σ) : Prop :=
  ∃ answer, (1 ≤ i → nextAnswer E s hook i.toUInt8 = some answer) ∧
    Named E.toCLib s reserved i.toUInt8 answer (f i) name t

/-- The script raised an error when it was asked for channel `i`. -/
def Unanswered (E : Env σ) (hook : Hook) (s : Dll σ) (i : Nat) (e : Stop) : Prop :=
  e.Raised ∧ 1 ≤ i ∧ nextAnswer E s hook i.toUInt8 = none

/-- Channel 0 is reserved, and no other channel of the loop is taken for it:
below 100 the cast to a byte changes nothing. -/
theorem toUInt8_ne_zero {i : Nat} (inside : i < markerSize) : i.toUInt8 ≠ 0 ↔ 1 ≤ i := by
  have value := toUInt8_toNat inside
  constructor
  · intro ne
    by_contra zero
    exact ne (by rw [show i = 0 by omega]; rfl)
  · rintro pos zero
    rw [zero] at value
    exact absurd value.symm (by simp; omega)

/-- What `GetInputName` writes and marks for a channel of the start. -/
theorem getInputName_named {i : Nat} (inside : i < markerSize) (closed : s.L = none) :
    Ensures (getInputName E i.toUInt8) s (Queried E "CONSOLE" .gInputName Marks.input s i)
      (fun e _ => Unanswered E .gInputName s i e) := by
  have marking : Marking (markInput (σ := σ) i.toUInt8.toNat 1) (Marks.input i) := by
    rw [toUInt8_toNat inside]
    exact markInput_marking inside
  have named := nameQuery_named (E := E) "CONSOLE" .gInputName (fun _ => trivial)
    (fun i c => .markInput QueriesOnly.frame i c) marking closed
  simp only [toUInt8_ne_zero inside] at named
  exact named

theorem getOutputName_named {i : Nat} (inside : i < markerSize) (closed : s.L = none) :
    Ensures (getOutputName E i.toUInt8) s (Queried E "ERROR" .gOutputName Marks.output s i)
      (fun e _ => Unanswered E .gOutputName s i e) := by
  have marking : Marking (markOutput (σ := σ) i.toUInt8.toNat 1) (Marks.output i) := by
    rw [toUInt8_toNat inside]
    exact markOutput_marking inside
  have named := nameQuery_named (E := E) "ERROR" .gOutputName (fun _ => trivial)
    (fun i c => .markOutput QueriesOnly.frame i c) marking closed
  simp only [toUInt8_ne_zero inside] at named
  exact named

end Query

/-! ### All names -/

/-- In every Lua state to come there is memory for the script, and it answers for
channel `i` with `answer i`. -/
def NamesAre (s : Dll σ) (hook : Hook) (count : Nat) (answer : Nat → Option TValue) : Prop :=
  ∀ epoch, s.epoch ≤ epoch → ∃ heap, E.luaOpen epoch = some heap ∧
    ∀ i, 1 ≤ i → i < count →
      nameAnswer E hook i.toUInt8 (scriptHeap E s.gFileNum heap) = some (answer i)

/-- The markers once the channels before `n` were asked. -/
def markedBy (C : CLib) (answer : Nat → Option TValue) (n : Nat) (old : Nat → UChar) (j : Nat) :
    UChar :=
  if 1 ≤ j ∧ j < n ∧ marksString C (answer j) then 1 else old j

/-- Between the queries: the script is closed again, and the markers are `m`. -/
structure Asked (s : Dll σ) (m : Marks) (t : Dll σ) : Prop where
  closed : t.L = none
  only : QueriesOnly s t
  marks : t.marks = m

section All

variable {E} {s t : Dll σ} {hook : Hook} {count : Nat} {answer : Nat → Option TValue} {m : Marks}

theorem markedBy_zero (C : CLib) (old : Nat → UChar) : markedBy C answer 0 old = old := by
  funext j
  simp [markedBy]

/-- One more channel: it is marked if the script said so, and the markers of the
others are those of the rounds before. A channel that is not marked keeps what
it had. -/
theorem markedBy_next (C : CLib) (n : Nat) (old : Nat → UChar) :
    markedBy C answer (n + 1) old =
      if 1 ≤ n ∧ marksString C (answer n) then Function.update (markedBy C answer n old) n 1
      else markedBy C answer n old := by
  funext j
  by_cases here : j = n
  · subst here
    split
    · rename_i marked
      simp [markedBy, marked]
    · rename_i not
      have out : ¬(1 ≤ j ∧ j < j + 1 ∧ marksString C (answer j) = true) := fun h => not ⟨h.1, h.2.2⟩
      have before : ¬(1 ≤ j ∧ j < j ∧ marksString C (answer j) = true) := fun h => by omega
      simp only [markedBy]
      rw [if_neg out, if_neg before]
  · have same : markedBy C answer (n + 1) old j = markedBy C answer n old j := by
      have iff : j < n + 1 ↔ j < n := by omega
      simp only [markedBy, iff]
    rw [same]
    split
    · rw [Function.update_of_ne here]
    · rfl

/-- The names hold for the state that the next query will open, since the epochs
only grow. -/
theorem NamesAre.next {i : Nat} (names : NamesAre E s hook count answer) (asked : Asked s m t)
    (pos : 1 ≤ i) (lt : i < count) : nextAnswer E t hook i.toUInt8 = some (answer i) := by
  obtain ⟨heap, memory, answers⟩ := names t.epoch asked.only.2.epoch
  unfold nextAnswer
  rw [memory, asked.only.1.gFileNum]
  exact answers i pos lt

/-- They depend on the epoch and the file alone. -/
theorem NamesAre.same (names : NamesAre E s hook count answer) (epoch : t.epoch = s.epoch)
    (file : t.gFileNum = s.gFileNum) : NamesAre E t hook count answer := by
  unfold NamesAre
  rw [epoch, file]
  exact names

/-- Setting a marker, between the queries. -/
theorem Asked.marking {mark : DllM σ PUnit} {f : Marks → Marks} (asked : Asked s m t)
    (marking : Marking mark f) {A : Stop → Dll σ → Prop} :
    Ensures mark t (fun _ u => Asked s (f m) u) A := by
  refine .of_ok (marking t) ⟨asked.closed, ?_, by rw [← asked.marks]; rfl⟩
  exact QueriesOnly.frame.trans s t _ asked.only (QueriesOnly.frame.markers t _ _)

/-- A loop over all channels, each asked in a Lua state of its own. After round
`i` the markers are those of the channels up to `i`, by the invariant `Asked`;
channel 0 is asked too, and marks nothing. -/
theorem askAll {reserved : String} {f : Nat → Marks → Marks} {query : UChar → DllM σ Bytes}
    (named : ∀ {i : Nat} {u : Dll σ}, i < markerSize → u.L = none →
      Ensures (query i.toUInt8) u (Queried E reserved hook f u i)
        (fun e _ => Unanswered E hook u i e))
    (le : count ≤ markerSize) (names : NamesAre E s hook count answer) (path : Nat → Marks)
    (next : ∀ i, path (i + 1) =
      if 1 ≤ i ∧ marksString E.toCLib (answer i) then f i (path i) else path i)
    (start : Asked s (path 0) t) :
    Ensures (countUp 0 count fun i => do
      let name ← query i.toUInt8
      emit fun _ => [.dummy (name.length + 1)]) t (fun _ u => Asked s (path count) u)
      (fun _ _ => False) := by
  refine Ensures.countUp (fun i => Asked s (path i)) (Nat.zero_le _) start
    fun i _ high u asked => ?_
  have inside : i < markerSize := Nat.lt_of_lt_of_le high le
  have answers : ∀ pos : 1 ≤ i, nextAnswer E u hook i.toUInt8 = some (answer i) := fun pos =>
    names.next asked pos high
  have asking : Ensures (query i.toUInt8) u (fun _ v => Asked s (path (i + 1)) v)
      (fun _ _ => False) := by
    refine (named inside asked.closed).mono ?_ ?_
    · rintro name v ⟨given, same, shut, only, _, marks⟩
      refine ⟨shut, QueriesOnly.frame.trans s u v asked.only only, ?_⟩
      rw [marks, asked.marks, next]
      by_cases pos : 1 ≤ i
      · have nonzero : i.toUInt8 ≠ 0 := (toUInt8_ne_zero inside).mpr pos
        rw [Option.some.inj ((same pos).symm.trans (answers pos))]
        simp only [pos, nonzero, ne_eq, not_false_eq_true, true_and]
      · have zero : i.toUInt8 = 0 := not_not.mp fun ne => pos ((toUInt8_ne_zero inside).mp ne)
        simp only [pos, zero, ne_eq, not_true_eq_false, false_and, if_false]
    · rintro e v ⟨_, pos, silent⟩
      rw [answers pos] at silent
      cases silent
  refine asking.bind fun name v asked' => .of_ok (run_emit _ v) ⟨asked'.closed, ?_, asked'.marks⟩
  have noted := QueriesOnly.frame.note v [.dummy (name.length + 1)] (by simp [Event.OfQuery])
  exact QueriesOnly.frame.trans s v _ asked'.only noted

end All

/-- The marker says whether `P` holds. -/
def Tells (P : Prop) (marker : UChar) : Prop := (P → marker = 1) ∧ (¬P → marker = 0)

/-- The markers are those of the string pins among the channels of `s`. -/
def StringPins (s : Dll σ) (ins outs : Nat → Option TValue) (t : Dll σ) : Prop :=
  ∀ i < markerSize,
    Tells (1 ≤ i ∧ i < s.gNumInputs.toNat ∧ NamesString (ins i)) (t.gInStrMarker i) ∧
    Tells (1 ≤ i ∧ i < s.gNumOutputs.toNat ∧ NamesString (outs i)) (t.gOutStrMarker i)

/-! ### The start -/

/-- The markers with those below `n` cleared. -/
def clearedBy (n : Nat) (old : Nat → UChar) (j : Nat) : UChar := if j < n then 0 else old j

theorem clearedBy_zero (old : Nat → UChar) : clearedBy 0 old = old := by
  funext j
  simp [clearedBy]

/-- One more round of the loop clears one more marker. -/
theorem clearedBy_next (n : Nat) (old : Nat → UChar) :
    clearedBy (n + 1) old = Function.update (clearedBy n old) n 0 := by
  funext j
  by_cases here : j = n
  · subst here
    simp [clearedBy]
  · have iff : j < n + 1 ↔ j < n := by omega
    rw [Function.update_of_ne here]
    simp only [clearedBy, iff]

/-- The markers after a start that began with `s`. -/
def Dll.marksAsked (C : CLib) (s : Dll σ) (ins outs : Nat → Option TValue) : Marks :=
  (markedBy C ins s.gNumInputs.toNat (clearedBy markerSize s.gInStrMarker),
    markedBy C outs s.gNumOutputs.toNat (clearedBy markerSize s.gOutStrMarker))

section Start

variable {E} {s : Dll σ} {ins outs : Nat → Option TValue}

/-- After both loops a marker is set exactly for the channels whose name is a string
with a `$` in front, whatever it was before. -/
theorem markedBy_tells (numbers : ∀ d, (E.number2str d).head? ≠ some dollar)
    (answer : Nat → Option TValue) (n : Nat) (old : Nat → UChar) {i : Nat}
    (inside : i < markerSize) :
    Tells (1 ≤ i ∧ i < n ∧ NamesString (answer i))
      (markedBy E.toCLib answer n (clearedBy markerSize old) i) := by
  unfold Tells markedBy
  rw [← marksString_iff E numbers]
  constructor
  · intro marked
    rw [if_pos marked]
  · intro not
    rw [if_neg not, clearedBy, if_pos inside]

/-- What the two loops leave, said of the pins: a marker is 1 exactly for a
channel the script named with a `$` in front. -/
theorem stringPins_of_marks (numbers : ∀ d, (E.number2str d).head? ≠ some dollar) {t : Dll σ}
    (marks : t.marks = s.marksAsked E.toCLib ins outs) : StringPins s ins outs t := by
  intro i inside
  have inputs : t.gInStrMarker = (s.marksAsked E.toCLib ins outs).1 := congrArg Prod.fst marks
  have outputs : t.gOutStrMarker = (s.marksAsked E.toCLib ins outs).2 := congrArg Prod.snd marks
  rw [inputs, outputs]
  constructor
  · exact markedBy_tells numbers ins _ _ inside
  · exact markedBy_tells numbers outs _ _ inside

/-- Clearing all markers and asking for every name. The three loops one after
the other, with the markers after each round as a path: first all places are
cleared, then the inputs are marked, then the outputs. -/
theorem queryMarkers_marks (closed : s.L = none) (insFit : s.gNumInputs.toNat ≤ markerSize)
    (outsFit : s.gNumOutputs.toNat ≤ markerSize)
    (insAre : NamesAre E s .gInputName s.gNumInputs.toNat ins)
    (outsAre : NamesAre E s .gOutputName s.gNumOutputs.toNat outs) :
    Ensures (queryMarkers E) s (fun _ t => Asked s (s.marksAsked E.toCLib ins outs) t)
      (fun _ _ => False) := by
  -- after n rounds the places below n are cleared
  let cleared (n : Nat) : Marks := (clearedBy n s.gInStrMarker, clearedBy n s.gOutStrMarker)
  have start : Asked s (cleared 0) s := by
    refine ⟨closed, QueriesOnly.frame.refl s, ?_⟩
    simp only [cleared, clearedBy_zero]
    rfl
  have clear : Ensures (countUp 0 markerSize fun i => do
      markInput i 0
      markOutput i 0) s (fun _ t => Asked s (cleared markerSize) t) (fun _ _ => False) := by
    refine Ensures.countUp (fun i => Asked s (cleared i)) (Nat.zero_le _) start
      fun i _ high t asked => ?_
    refine (asked.marking (f := fun m => (Function.update m.1 i 0, m.2)) fun u => ?_).bind
      fun _ u asked' => ?_
    · unfold markInput
      rw [if_pos high]
      rfl
    · refine (asked'.marking (f := fun m => (m.1, Function.update m.2 i 0)) fun v => ?_).mono
        (fun _ v last => ?_) fun _ _ no => no
      · unfold markOutput
        rw [if_pos high]
        rfl
      · simp only [cleared, clearedBy_next]
        exact last
  refine clear.bind fun _ t asked => .step (run_get t) ?_
  rw [asked.only.1.gNumInputs]
  let marking (n : Nat) : Marks :=
    (markedBy E.toCLib ins n (cleared markerSize).1, (cleared markerSize).2)
  have inputs := askAll (t := t) (f := Marks.input)
    (fun inside shut => getInputName_named inside shut)
    insFit insAre marking (fun i => by
      simp only [marking, markedBy_next]
      split
      · rfl
      · rfl) (by simpa only [marking, markedBy_zero] using asked)
  refine inputs.bind fun _ u asked => .step (run_get u) ?_
  rw [asked.only.1.gNumOutputs]
  let marking' (n : Nat) : Marks :=
    ((marking s.gNumInputs.toNat).1, markedBy E.toCLib outs n (cleared markerSize).2)
  exact askAll (t := u) (f := Marks.output) (fun inside shut => getOutputName_named inside shut)
    outsFit outsAre marking' (fun i => by
      simp only [marking', markedBy_next]
      split
      · rfl
      · rfl) (by simpa only [marking', markedBy_zero] using asked)

end Start

/-! ### Until the next name is asked -/

/-- The markers stay what they are, and so does a pending start. -/
structure SameMarks (s t : Dll σ) : Prop where
  marks : t.marks = s.marks
  gCSimStartOverride : t.gCSimStartOverride = s.gCSimStartOverride

theorem SameMarks.trans {s t u : Dll σ} (h : SameMarks s t) (k : SameMarks t u) : SameMarks s u :=
  ⟨k.marks.trans h.marks, k.gCSimStartOverride.trans h.gCSimStartOverride⟩

/-- Opening and closing the script keeps the markers. -/
theorem SameMarks.openingFrame : OpeningFrame (fun _ => True) (SameMarks (σ := σ)) where
  refl := fun _ => ⟨rfl, rfl⟩
  trans := fun _ _ _ => SameMarks.trans
  setL := fun _ _ => ⟨rfl, rfl⟩
  balanced := fun _ _ => ⟨rfl, rfl⟩
  note := fun _ _ _ => ⟨rfl, rfl⟩
  epoch := fun _ => ⟨rfl, rfl⟩

theorem SameMarks.queryFrame : QueryFrame (fun _ => True) (SameMarks (σ := σ)) where
  toOpeningFrame := SameMarks.openingFrame
  gFileNum := fun _ _ => ⟨rfl, rfl⟩
  counts := fun _ _ _ => ⟨rfl, rfl⟩
  raised := fun _ => ⟨rfl, rfl⟩

/-- Everything a simulation does after its names have been asked leaves the
markers as they are. -/
theorem SameMarks.sessionFrame : SessionFrame (SameMarks (σ := σ)) where
  toOpeningFrame := SameMarks.openingFrame
  gERROR := fun _ _ => ⟨rfl, rfl⟩
  host := fun _ _ => ⟨rfl, rfl⟩
  console := fun _ _ only =>
    ⟨Prod.ext only.gInStrMarker only.gOutStrMarker, only.gCSimStartOverride⟩

/-- The calls that ask for no name. The flag says whether a start is pending,
which would. -/
def nameless : Bool → HostCall → Option Bool
  | _, ⟨_, .getInputName _⟩ => none
  | _, ⟨_, .getOutputName _⟩ => none
  | _, ⟨_, .cSimStart⟩ => some true
  | true, ⟨_, .cCalculateEx⟩ => none
  | pending, _ => some pending

/-- What the markers are while no name is asked. -/
def MarksStay (m : Marks) (pending : Bool) (s : Dll σ) : Prop :=
  s.marks = m ∧ (pending = false → s.gCSimStartOverride = 0)

section Later

variable {E} {m : Marks}

/-- Once they are settled the markers stay, call by call. -/
theorem MarksStay.same {pending : Bool} {s t : Dll σ} (stay : MarksStay m pending s)
    (same : SameMarks s t) : MarksStay m pending t :=
  ⟨same.marks.trans stay.1, fun settled => same.gCSimStartOverride.trans (stay.2 settled)⟩

/-- A part that leaves the markers and a pending start alone. -/
theorem Within.marksStay {α : Type} {x : DllM σ α} (h : Within .either SameMarks x)
    {pending : Bool} {s : Dll σ} (stay : MarksStay m pending s) :
    Ensures x s (fun _ t => MarksStay m pending t) (fun _ t => t.marks = m) :=
  (h s trivial).mono (fun _ _ ⟨_, same⟩ => stay.same same) fun _ _ ⟨_, same⟩ =>
    (stay.same same).1

/-- One call that asks for no name. Of the two calls that could touch the
markers, a name query is excluded, and a step only asks for names while a start
is pending. -/
theorem HostCall.marksStay {before after : Bool} {c : HostCall} {s : Dll σ}
    (move : nameless before c = some after) (stay : MarksStay m before s) :
    Ensures (c.perform E) s (fun _ t => MarksStay m after t) (fun _ t => t.marks = m) := by
  refine HostCall.ensures E ?_
  have stay' : MarksStay m before { s with host := c.write s.host } := stay
  have F := SameMarks.sessionFrame (σ := σ)
  obtain ⟨write, entry⟩ := c
  cases entry with
  | cNumInputsEx =>
      obtain rfl : before = after := by cases before <;> exact Option.some.inj move
      exact (Within.bind F.toFrame (cNumInputsEx_within E SameMarks.queryFrame (fun _ _ => trivial)
        (by simp)) fun _ => .pure F.toFrame _).marksStay stay'
  | cNumOutputsEx =>
      obtain rfl : before = after := by cases before <;> exact Option.some.inj move
      exact (Within.bind F.toFrame (cNumOutputsEx_within E SameMarks.queryFrame (fun _ _ => trivial)
        (by simp)) fun _ => .pure F.toFrame _).marksStay stay'
  | getInputName channel => cases before <;> cases move
  | getOutputName channel => cases before <;> cases move
  | cSimStart =>
      obtain rfl : true = after := by cases before <;> exact Option.some.inj move
      rw [Entry.perform_cSimStart]
      exact .bind (.modify ⟨stay'.1, fun no => Bool.noConfusion no⟩) fun _ _ h => .pure h
  | cCalculateEx =>
      cases before with
      | true => cases move
      | false =>
          cases move
          have settled : startOverride E { s with host := write s.host } =
              .ok ⟨⟩ { s with host := write s.host } :=
            ok_bind (run_get _) (ok_ite_false (by simpa using stay'.2 rfl) rfl)
          rw [Entry.perform_cCalculateEx]
          refine Ensures.bind (.step settled ?_) fun _ _ h => .pure h
          exact (runStep_within E F).marksStay stay'
  | cSimStop =>
      obtain rfl : before = after := by cases before <;> exact Option.some.inj move
      exact (Within.bind F.toFrame (cSimStop_within E F) fun _ => .pure F.toFrame _).marksStay stay'

/-- The markers stay through every run of calls that ask for no name. -/
theorem runCalls_marksStay {calls : List HostCall} {before last : Bool} {s : Dll σ}
    (later : follow nameless before calls = some last) (stay : MarksStay m before s) :
    Ensures (runCalls E calls) s (fun _ t => MarksStay m last t) (fun _ t => t.marks = m) :=
  Ensures.runAll (fun _ _ _ _ move stay => HostCall.marksStay move stay) later stay

/-- The rest of the start asks for no name, so the markers after it are those of
the queries, also where the script stops it. -/
theorem cSimStartFlaw_marks {s : Dll σ} {ins outs : Nat → Option TValue} (closed : s.L = none)
    (insFit : s.gNumInputs.toNat ≤ markerSize) (outsFit : s.gNumOutputs.toNat ≤ markerSize)
    (insAre : NamesAre E s .gInputName s.gNumInputs.toNat ins)
    (outsAre : NamesAre E s .gOutputName s.gNumOutputs.toNat outs) :
    Ensures (cSimStartFlaw E) s (fun _ t => t.marks = s.marksAsked E.toCLib ins outs)
      (fun _ t => t.marks = s.marksAsked E.toCLib ins outs) := by
  refine .step (run_setError 1 s) (.step (run_setPOutput 0 plError _) ?_)
  refine (consoleStart_outcome _).bind fun _ t only => ?_
  have asked : t.marksAsked E.toCLib ins outs = s.marksAsked E.toCLib ins outs := by
    unfold Dll.marksAsked
    rw [only.gNumInputs, only.gNumOutputs, only.gInStrMarker, only.gOutStrMarker]
  have inputs : t.gNumInputs = s.gNumInputs := only.gNumInputs
  have outputs : t.gNumOutputs = s.gNumOutputs := only.gNumOutputs
  have insAre' := insAre.same only.epoch only.gFileNum
  have outsAre' := outsAre.same only.epoch only.gFileNum
  rw [← inputs] at insFit insAre'
  rw [← outputs] at outsFit outsAre'
  rw [← asked]
  refine ((queryMarkers_marks (only.L.trans closed) insFit outsFit insAre' outsAre').mono
    (fun _ _ h => h) fun _ _ no => no.elim).bind fun _ u asked => ?_
  exact (opening_within E SameMarks.sessionFrame u trivial).mono
    (fun _ _ ⟨_, same⟩ => same.marks.trans asked.marks)
    fun _ _ ⟨_, same⟩ => same.marks.trans asked.marks

/-- The string markers are those of the current script, whatever they were
before: once the names are asked, once the start is over, and after a first step
and every call that asks for no name. Nothing is assumed of the markers of the
state it begins with. -/
theorem markers_reflect {s : Dll σ} {ins outs : Nat → Option TValue} (closed : s.L = none)
    (insFit : s.gNumInputs.toNat ≤ markerSize) (outsFit : s.gNumOutputs.toNat ≤ markerSize)
    (numbers : ∀ d, (E.number2str d).head? ≠ some dollar)
    (insAre : NamesAre E s .gInputName s.gNumInputs.toNat ins)
    (outsAre : NamesAre E s .gOutputName s.gNumOutputs.toNat outs) :
    Ensures (queryMarkers E) s (fun _ t => StringPins s ins outs t) (fun _ _ => False) ∧
    Ensures (cSimStartFlaw E) s (fun _ t => StringPins s ins outs t)
      (fun _ t => StringPins s ins outs t) ∧
    ∀ calls last, s.gCSimStartOverride ≠ 0 → follow nameless false calls = some last →
      Ensures (cCalculateEx E >>= fun _ => runCalls E calls) s
        (fun _ t => StringPins s ins outs t) (fun _ t => StringPins s ins outs t) := by
  have start := cSimStartFlaw_marks closed insFit outsFit insAre outsAre
  refine ⟨?_, ?_, fun calls last pending later => ?_⟩
  · exact (queryMarkers_marks closed insFit outsFit insAre outsAre).mono
      (fun _ _ asked => stringPins_of_marks numbers asked.marks) fun _ _ no => no
  · exact start.mono (fun _ _ => stringPins_of_marks numbers)
      fun _ _ => stringPins_of_marks numbers
  · -- the first step makes the start, and then no start is pending
    have first : Ensures (cCalculateEx E) s
        (fun _ t => MarksStay (s.marksAsked E.toCLib ins outs) false t)
        (fun _ t => t.marks = s.marksAsked E.toCLib ins outs) := by
      have settle : Ensures (startOverride E) s
          (fun _ t => MarksStay (s.marksAsked E.toCLib ins outs) false t)
          (fun _ t => t.marks = s.marksAsked E.toCLib ins outs) := by
        refine .step (run_get s) (.ite (fun _ => ?_) fun no => absurd pending no)
        exact start.bind fun _ t marks => .modify ⟨marks, fun _ => rfl⟩
      exact settle.bind fun _ t stay => (runStep_within E SameMarks.sessionFrame).marksStay stay
    have run := first.bind fun _ t stay => runCalls_marksStay (E := E) later stay
    exact run.mono (fun _ _ stay => stringPins_of_marks numbers stay.1)
      fun _ _ => stringPins_of_marks numbers

end Later

/-- A script whose first input is a string pin; it names no outputs. -/
def pinScript : Env Unit :=
  sampleEnv [("gInputName", .function 1), ("gSimStart", .function 2)] fun _ args h =>
    if args = [.number (.ofNat 1)] then ([.string (lit "$text")], h)
    else ([.string (lit "level")], h)

/-- What `pinScript` answers for an input. -/
def pinNames (i : Nat) : Option TValue :=
  some (.string (if i = 1 then lit "$text" else lit "level"))

/-- Every marker is stale. -/
def staleState : Dll Unit :=
  { Dll.init sampleHost with
    gNumInputs := 3
    gNumOutputs := 2
    gInStrMarker := fun _ => 1
    gOutStrMarker := fun _ => 1
    gCSimStartOverride := 1 }

/-- All places are marked before the start, and afterwards only the first input is. -/
theorem markers_reflect_staleState :
    (1 ≤ 1 ∧ 1 < staleState.gNumInputs.toNat ∧ NamesString (pinNames 1)) ∧
      Ensures (cCalculateEx pinScript >>= fun _ => runCalls pinScript (quietCalls [.cCalculateEx,
        .cSimStop])) staleState (fun _ t => StringPins staleState pinNames (fun _ => none) t)
        (fun _ t => StringPins staleState pinNames (fun _ => none) t) := by
  have insAre : NamesAre pinScript staleState .gInputName staleState.gNumInputs.toNat pinNames := by
    intro epoch _
    refine ⟨_, rfl, fun i low high => ?_⟩
    change i < 3 at high
    interval_cases i
    all_goals decide +kernel
  have outsAre : NamesAre pinScript staleState .gOutputName staleState.gNumOutputs.toNat
      fun _ => none := by
    intro epoch _
    refine ⟨_, rfl, fun i low high => ?_⟩
    change i < 2 at high
    interval_cases i
    decide +kernel
  have numbers : ∀ d, (pinScript.number2str d).head? ≠ some dollar := by
    intro d
    change (lit "0").head? ≠ some dollar
    decide
  refine ⟨⟨by decide, by decide, _, rfl, by decide⟩, ?_⟩
  exact (markers_reflect rfl (by decide) (by decide) numbers insAre outsAre).2.2 _ false
    (by decide) (by decide)

end ProfiLua
