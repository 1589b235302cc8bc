import ProfiLua.Dll.Markers

/-!
The name queries under any script.

The comments above `GetInputName` and `GetOutputName` promise `!ERROR!` whenever
anything goes wrong. All failures keep to this but one: the name function is
called unprotected, so an error it raises ends the process. The queries survive
exactly when there is no such error (`nameQueries_survive_iff`).
-/

namespace ProfiLua

open Program

variable {σ : Type} (E : Env σ)

/-- The name a query is to give: the reserved one for channel 0, the C string of a
string or number that the script answers, and `!ERROR!` in all other cases. -/
def dueName (s : Dll σ) (reserved : String) (hook : Hook) (channel : UChar) : Bytes :=
  if channel = 0 then lit reserved
  else
    match nextAnswer E s hook channel with
    | some (some v) => if v.isstring then cstr (v.text E.toCLib) else lit "!ERROR!"
    | _ => lit "!ERROR!"

/-- The query returns with the name that is due and `L` closed; it has set the
marker of its channel if the name starts with `$`, and changed nothing else. -/
def Survives (reserved : String) (hook : Hook) (query : UChar → DllM σ Bytes)
    (mark : Nat → Marks → Marks) (s : Dll σ) (channel : UChar) : Prop :=
  Ensures (query channel) s
    (fun name t => t.L = none ∧ SameControl s t ∧ name = dueName E s reserved hook channel ∧
      t.marks = if name.head? = some dollar then mark channel.toNat s.marks else s.marks)
    (fun _ _ => False)

/-- Asking the script raises no error: it is not asked, there is no memory for a
Lua state, or the lookup and the call of the name function return. -/
def Answers (s : Dll σ) (hook : Hook) (channel : UChar) : Prop :=
  channel = 0 ∨ nextAnswer E s hook channel ≠ none

section Survival

variable {E} {s : Dll σ} {reserved : String} {hook : Hook} {channel : UChar}
  {answer : Option TValue}

/-- The text that marks is the one that starts with `$`. -/
theorem marksString_iff_head (C : CLib) (answer : Option TValue) :
    marksString C answer = true ↔ (nameText C answer).head? = some dollar := by
  have other : (lit "!ERROR!").head? ≠ some dollar := by decide
  rcases answer with _ | v
  · simp [marksString, nameText, other]
  · by_cases text : v.isstring = true
    · simp [marksString, nameText, text]
    · simp [marksString, nameText, text, other]

/-- The name that is due, where the script answers. -/
theorem dueName_eq (ne : channel ≠ 0) (answered : nextAnswer E s hook channel = some answer) :
    dueName E s reserved hook channel = nameText E.toCLib answer := by
  unfold dueName
  rw [if_neg ne, answered]
  cases answer with
  | none => rfl
  | some v => rfl

/-- What a query that returned has done is what it had to do: it writes the
name, marks the channel by its first byte, and closes the script. The two texts
of the DLL itself start with no `$`. -/
theorem Named.due {f : Marks → Marks} {name : Bytes} {t : Dll σ}
    (plain : (lit reserved).head? ≠ some dollar)
    (named : Named E.toCLib s reserved channel answer f name t)
    (answered : channel ≠ 0 → nextAnswer E s hook channel = some answer) :
    t.L = none ∧ SameControl s t ∧ name = dueName E s reserved hook channel ∧
      t.marks = if name.head? = some dollar then f s.marks else s.marks := by
  have text := named.name
  have marks := named.marks
  by_cases zero : channel = 0
  · have due : dueName E s reserved hook channel = lit reserved := by
      unfold dueName
      rw [if_pos zero]
    rw [if_pos zero] at text
    rw [if_neg (fun both => both.1 zero)] at marks
    refine ⟨named.closed, named.only.1, text.trans due.symm, ?_⟩
    rw [text, if_neg plain, marks]
  · rw [if_neg zero] at text
    refine ⟨named.closed, named.only.1, text.trans (dueName_eq zero (answered zero)).symm, ?_⟩
    rw [marks, text]
    simp only [zero, ne_eq, not_false_eq_true, true_and, marksString_iff_head]

/-- A query that does what `Named` says unless the script raises an error
survives exactly when it does not. Channel 0 is answered without the script, so
it always survives. -/
theorem survives_iff {query : UChar → DllM σ Bytes} {mark : Nat → Marks → Marks}
    (plain : (lit reserved).head? ≠ some dollar) (inside : channel.toNat < markerSize)
    (named : Ensures (query channel.toNat.toUInt8) s (Queried E reserved hook mark s channel.toNat)
      (fun e _ => Unanswered E hook s channel.toNat e)) :
    Survives E reserved hook query mark s channel ↔ Answers E s hook channel := by
  have same : channel.toNat.toUInt8 = channel := UInt8.toNat_inj.mp (toUInt8_toNat inside)
  have positive : channel ≠ 0 ↔ 1 ≤ channel.toNat := by
    rw [← toUInt8_ne_zero inside, same]
  unfold Queried Unanswered at named
  rw [same] at named
  constructor
  · intro survives
    by_cases zero : channel = 0
    · exact .inl zero
    · obtain ⟨name, t, returned, -⟩ := survives.returns
      obtain ⟨answer, answered, -⟩ := named.ok returned
      exact .inr (by rw [answered (positive.mp zero)]; simp)
  · intro answers
    refine named.mono ?_ ?_
    · rintro name t ⟨answer, answered, done⟩
      exact done.due plain fun ne => answered (positive.mp ne)
    · rintro e t ⟨-, pos, silent⟩
      rcases answers with zero | some
      · exact positive.mpr pos zero
      · exact some silent

end Survival

/-- With the script closed, a name query survives exactly the scripts whose name
function raises no error: `lua_call` is not protected, so an error in it goes to
the panic function and ends the process. -/
theorem nameQueries_survive_iff {s : Dll σ} (closed : s.L = none) {channel : UChar}
    (inside : channel.toNat < markerSize) :
    (Survives E "CONSOLE" .gInputName (getInputName E) Marks.input s channel ↔
      Answers E s .gInputName channel) ∧
    (Survives E "ERROR" .gOutputName (getOutputName E) Marks.output s channel ↔
      Answers E s .gOutputName channel) := by
  constructor
  · exact survives_iff (by decide) inside (getInputName_named inside closed)
  · exact survives_iff (by decide) inside (getOutputName_named inside closed)

theorem nameQueries_survive_iff_pinScript :
    Survives pinScript "CONSOLE" .gInputName (getInputName pinScript) Marks.input
      (Dll.init sampleHost) 1 := by
  have answers : Answers pinScript (Dll.init sampleHost) .gInputName 1 := .inr (by decide +kernel)
  exact (nameQueries_survive_iff pinScript (s := Dll.init sampleHost) rfl (by decide)).1.mpr answers

/-- A script whose name functions raise an error. -/
def raisingScript : Env Unit :=
  { sampleEnv [("gInputName", .function 1), ("gOutputName", .function 1)] fun _ _ h => ([], h) with
    call := fun func args h =>
      if func = .function 1 then .raised (.string (lit "no such pin")) h
      else (sampleEnv [("gInputName", .function 1), ("gOutputName", .function 1)] fun _ _ h =>
        ([], h)).call func args h }

/-- The error ends the query, and with it the process. -/
theorem raisingScript_ends :
    ¬Survives raisingScript "CONSOLE" .gInputName (getInputName raisingScript) Marks.input
      (Dll.init sampleHost) 1 := by
  intro survives
  have stops : Ensures (getInputName raisingScript 1) (Dll.init sampleHost) (fun _ _ => False)
      (fun _ _ => True) := by decide +kernel
  obtain ⟨name, t, returned, -⟩ := survives.returns
  exact stops.ok returned

end ProfiLua
