import ProfiLua.Serial.Send

/-!
What `Send` transmits and reports.

Modulo 256 the values passed to `SendByte` are the flattened argument
(`send_transmits`). As `int`s they depend on the way the bytes are given, since
the bytes of a string are signed: all ways agree exactly for bytes below 128
(`ways_agree_iff`). The number `Send` returns is that of the successes exactly
when nothing was sent before the last number of a table (`send_reports_iff`).
-/

namespace ProfiLua

open Program

variable {σ : Type}

/-! ### The data -/

/-- The bytes a number or a string stands for. -/
def flattenPiece : TValue → List Int
  | .number d => d.trunc.toList
  | .string s => s.map fun b => (b.toNat : Int)
  | _ => []

/-- The bytes a value stands for: of a table, those of its elements up to the
first that is neither a number nor a string. -/
def flatten (heap : Heap σ) (size : Nat) : TValue → List Int
  | .table t => (elements heap t size).flatMap flattenPiece
  | v => flattenPiece v

/-- A number has an integer part that is an `int`. -/
def FitsInt : TValue → Prop
  | .number d => ∃ i, d.trunc = some i ∧ -2 ^ 31 ≤ i ∧ i < 2 ^ 31
  | _ => True

/-- All numbers that are sent do. -/
def NumbersFit (heap : Heap σ) (size : Nat) : TValue → Prop
  | .table t => ∀ v ∈ elements heap t size, FitsInt v
  | v => FitsInt v

theorem charInt_mod (b : UInt8) : (charInt b).toInt % 256 = (b.toNat : Int) % 256 := by
  have all : ∀ k : Fin 256, (charInt (UInt8.ofNat k.val)).toInt % 256 = (k.val : Int) % 256 := by
    decide +kernel
  have this := all ⟨b.toNat, b.toNat_lt⟩
  simpa using this

/-- Modulo 256 the values sent for a number or a string are its bytes. Of a
number the fraction is cut off. -/
theorem pieceInts_mod (E : LibEnv σ) {v : TValue} (fits : FitsInt v) :
    (pieceInts E v).map (fun x => x.toInt % 256) = (flattenPiece v).map (· % 256) := by
  cases v with
  | number d =>
      obtain ⟨i, whole, low, high⟩ := fits
      have cast : castInt E.casts d = Int32.ofInt i := by
        simp only [castInt, whole]
        rw [if_pos ⟨low, high⟩]
      have value : (Int32.ofInt i).toInt = i := by
        rw [Int32.toInt_ofInt, Int.bmod_eq_of_le]
        · simp only [Int32.size]
          omega
        · simp only [Int32.size]
          omega
      simp [pieceInts, flattenPiece, whole, cast, value]
  | string s =>
      simp only [pieceInts, flattenPiece, List.map_map]
      exact List.map_congr_left fun b _ => charInt_mod b
  | _ => rfl

/-- The values that are passed are the elements modulo 256, one after the other.
-/
theorem ints_mod (E : LibEnv σ) {heap : Heap σ} {size : Nat} {v : TValue}
    (fits : NumbersFit heap size v) :
    (ints E heap size v).map (fun x => x.toInt % 256) = (flatten heap size v).map (· % 256) := by
  cases v with
  | table t =>
      simp only [ints, flatten, List.map_flatMap]
      exact List.flatMap_congr fun u mem => pieceInts_mod E (fits u mem)
  | number d => exact pieceInts_mod E (v := .number d) fits
  | string s => exact pieceInts_mod E (v := .string s) trivial
  | _ => rfl

/-- `Send` transmits the flattened argument, whatever `SendByte` answers. It ends
with its arguments as they were, below the one result. -/
theorem send_transmits (E : LibEnv σ) (A : SerialAnswers) (func h v : TValue) (heap : Heap σ)
    (w : Serial) {size : Nat} (table : ∀ t, v = .table t → FiniteTable heap t size)
    (fits : NumbersFit heap size v) {rounds : Nat} (enough : size < rounds) :
    ∃ ret sent, plSerialSend E A rounds ⟨⟨frame func [h, v], heap⟩, w⟩ =
        .ok 1 ⟨⟨.number ret :: frame func [h, v], heap⟩, w.sent (handleOf E h) sent⟩ ∧
      sent.map (fun x => x.toInt % 256) = (flatten heap size v).map (· % 256) :=
  ⟨_, _, run_plSerialSend E A func h v heap w table enough, ints_mod E fits⟩

/-- A plain table that has these elements and no others. -/
structure Lists (heap : Heap σ) (t : Nat) (es : List TValue) : Prop where
  plain : (heap.table t).metatable = false
  content : ∀ i, elementAt heap t (1 + i) = es.getD i .nil

/-- A table that lists its elements has no others. -/
theorem Lists.finite {heap : Heap σ} {t : Nat} {es : List TValue} (lists : Lists heap t es) :
    FiniteTable heap t es.length where
  plain := lists.plain
  finite := by
    intro i beyond
    have here := lists.content (i - 1)
    rw [show 1 + (i - 1) = i by omega] at here
    rw [here, List.getD_eq_getElem?_getD, List.getElem?_eq_none (by omega), Option.getD_none]

/-- If all elements can be sent, they all are. -/
theorem Lists.elements {heap : Heap σ} {t : Nat} {es : List TValue} (lists : Lists heap t es)
    (all : ∀ v ∈ es, v.sendable = true) : elements heap t es.length = es := by
  have values : (List.range' 1 es.length).map (elementAt heap t) = es := by
    refine List.ext_getElem (by simp) fun i _ inside => ?_
    rw [List.getElem_map, List.getElem_range', Nat.one_mul, lists.content,
      List.getD_eq_getElem?_getD, List.getElem?_eq_getElem inside, Option.getD_some]
  rw [ProfiLua.elements, values]
  exact List.takeWhile_eq_self_iff.mpr all

theorem listHeap_lists (es : List TValue) : Lists (listHeap es) 1 es where
  plain := by
    rw [listHeap, show (1 : Nat) = quietHeap.bound from rfl, Heap.alloc_table_self]
    rfl
  content := by
    intro i
    rw [elementAt, listHeap, show (1 : Nat) = quietHeap.bound from rfl, Heap.alloc_table_self]
    exact listTable_node es i

/-- A `SendByte` that always succeeds. -/
def allSent : SerialAnswers :=
  ⟨1, true, true, true, true, fun _ => true, 0, true, 0, true⟩

theorem send_transmits_mixed :
    ∃ ret sent, plSerialSend quietEnv allSent 3
        ⟨⟨frame .nil [.number (.fin 1), .table 1],
          listHeap [.number (.fin 300), .string [65, 0]]⟩, ⟨[]⟩⟩ =
        .ok 1 ⟨⟨.number ret :: frame .nil [.number (.fin 1), .table 1],
          listHeap [.number (.fin 300), .string [65, 0]]⟩,
          (⟨[]⟩ : Serial).sent (handleOf quietEnv (.number (.fin 1))) sent⟩ ∧
      sent.map (fun x => x.toInt % 256) =
        (flatten (listHeap [.number (.fin 300), .string [65, 0]]) 2 (.table 1)).map (· % 256) := by
  have lists := listHeap_lists [.number (.fin 300), .string [65, 0]]
  refine send_transmits quietEnv allSent _ _ _ _ _ ?_ ?_ (by decide)
  · rintro t ⟨⟩
    exact lists.finite
  · intro v mem
    have all : ∀ u ∈ [TValue.number (.fin 300), .string [65, 0]], u.sendable = true := by decide
    rw [show elements _ 1 2 = _ from lists.elements all] at mem
    rw [List.mem_pair] at mem
    obtain rfl | rfl := mem
    · exact ⟨300, by decide, by decide, by decide⟩
    · trivial

/-! ### The ways to give a byte string -/

/-- A byte as a number. -/
def byteValue (b : UInt8) : TValue := .number (.ofNat b.toNat)

/-- A piece of a byte string in a table. -/
inductive Piece where
  | text (s : Bytes)
  | byte (b : UInt8)

/-- The bytes of a piece. -/
def Piece.data : Piece → Bytes
  | .text s => s
  | .byte b => [b]

/-- The element a piece is. -/
def Piece.value : Piece → TValue
  | .text s => .string s
  | .byte b => byteValue b

/-- The values that give `Send` the bytes of `s`. -/
inductive Gives (heap : Heap σ) (s : Bytes) : TValue → Prop
  | string : Gives heap s (.string s)
  | wrapped {t : Nat} : Lists heap t [.string s] → Gives heap s (.table t)
  | bytes {t : Nat} : Lists heap t (s.map byteValue) → Gives heap s (.table t)
  | pieces {t : Nat} {ps : List Piece} : (∀ p ∈ ps, p.data ≠ []) → ps.flatMap Piece.data = s →
      Lists heap t (ps.map Piece.value) → Gives heap s (.table t)

/-- `Send(h, v)` ends, and passes these bytes to `SendByte`, each as the `int`
with its value. -/
def Passes (E : LibEnv σ) (A : SerialAnswers) (func h v : TValue) (heap : Heap σ) (w : Serial)
    (s : Bytes) : Prop :=
  ∃ enough, ∀ rounds, enough ≤ rounds → ∃ L,
    plSerialSend E A rounds ⟨⟨frame func [h, v], heap⟩, w⟩ =
      .ok 1 ⟨L, w.sent (handleOf E h) (s.map fun b => Int32.ofNat b.toNat)⟩

/-- Read as an `int`, a byte stays what it is below 128, where the sign begins.
-/
theorem charInt_eq_iff (b : UInt8) : charInt b = Int32.ofNat b.toNat ↔ b < 128 := by
  have all : ∀ k : Fin 256, charInt (UInt8.ofNat k.val) = Int32.ofNat k.val ↔
      UInt8.ofNat k.val < 128 := by
    decide +kernel
  have this := all ⟨b.toNat, b.toNat_lt⟩
  simpa using this

/-- A string is passed as the values of its bytes when all are below 128. -/
theorem map_charInt_eq_iff (s : Bytes) :
    s.map charInt = s.map (fun b => Int32.ofNat b.toNat) ↔ ∀ b ∈ s, b < 128 := by
  rw [List.map_inj_left]
  exact forall₂_congr fun b _ => charInt_eq_iff b

/-- A byte number is passed as it is, since it fits into an `int`. -/
theorem castInt_byte (E : LibEnv σ) (b : UInt8) :
    castInt E.casts (.ofNat b.toNat) = Int32.ofNat b.toNat := by
  have small := b.toNat_lt
  simp only [castInt, LuaNumber.trunc_ofNat]
  rw [if_pos ⟨by omega, by omega⟩]
  rfl

/-- A piece with bytes below 128 is passed as its bytes. -/
theorem pieceInts_value (E : LibEnv σ) {p : Piece} (ascii : ∀ b ∈ p.data, b < 128) :
    pieceInts E p.value = p.data.map fun b => Int32.ofNat b.toNat := by
  cases p with
  | text s => exact (map_charInt_eq_iff s).mpr ascii
  | byte b => exact congrArg (fun i => [i]) (castInt_byte E b)

/-- A piece is a number or a string. -/
theorem Piece.value_sendable (p : Piece) : p.value.sendable = true := by
  cases p <;> rfl

/-- A table of pieces is sent piece by piece, so its bytes arrive in their
order. -/
theorem ints_pieces (E : LibEnv σ) {heap : Heap σ} {t : Nat} {ps : List Piece}
    (lists : Lists heap t (ps.map Piece.value)) (ascii : ∀ b ∈ ps.flatMap Piece.data, b < 128) :
    ints E heap ps.length (.table t) =
      (ps.flatMap Piece.data).map fun b => Int32.ofNat b.toNat := by
  have all : ∀ v ∈ ps.map Piece.value, v.sendable = true := by
    intro v mem
    obtain ⟨p, -, rfl⟩ := List.mem_map.mp mem
    exact p.value_sendable
  have listed := lists.elements all
  rw [List.length_map] at listed
  rw [ints, listed, List.flatMap_map, List.map_flatMap]
  refine List.flatMap_congr fun p mem => pieceInts_value E fun b inside => ascii b ?_
  exact List.mem_flatMap.mpr ⟨p, mem, inside⟩

section Ways

variable (E : LibEnv σ) (A : SerialAnswers) (func h : TValue) (heap : Heap σ) (w : Serial)

/-- What is passed to `SendByte` decides whether the bytes arrive. -/
theorem passes_of_ints {v : TValue} {s : Bytes} {size : Nat}
    (table : ∀ t, v = .table t → FiniteTable heap t size)
    (same : ints E heap size v = s.map fun b => Int32.ofNat b.toNat) :
    Passes E A func h v heap w s := by
  refine ⟨size + 1, fun rounds enough => ?_⟩
  rw [run_plSerialSend E A func h v heap w table enough, same]
  exact ⟨_, rfl⟩

/-- A table of pieces is a way that passes bytes below 128. -/
theorem passes_pieces {t : Nat} {ps : List Piece} (lists : Lists heap t (ps.map Piece.value))
    (ascii : ∀ b ∈ ps.flatMap Piece.data, b < 128) :
    Passes E A func h (.table t) heap w (ps.flatMap Piece.data) := by
  refine passes_of_ints E A func h heap w ?_ (ints_pieces E lists ascii)
  rintro _ ⟨⟩
  have finite := lists.finite
  rwa [List.length_map] at finite

/-- As a string, the bytes of `s` are passed exactly when they are below 128.
The calls of `SendByte` are recorded, so what was passed can be read off the
record. -/
theorem passes_string_iff (s : Bytes) :
    Passes E A func h (.string s) heap w s ↔ ∀ b ∈ s, b < 128 := by
  have none : ∀ t, TValue.string s = .table t → FiniteTable heap t 0 := by
    rintro t ⟨⟩
  constructor
  · rintro ⟨enough, passes⟩
    obtain ⟨L, run⟩ := passes (enough + 1) (Nat.le_succ _)
    rw [run_plSerialSend E A func h (.string s) heap w none (Nat.succ_pos _)] at run
    have calls : (w.sent (handleOf E h) (s.map charInt)).calls =
        (w.sent (handleOf E h) (s.map fun b => Int32.ofNat b.toNat)).calls := by
      injection run with _ same
      exact congrArg (fun c : Calling σ Serial => c.world.calls) same
    simp only [Serial.sent, List.append_cancel_left_eq] at calls
    have inj : Function.Injective (SerialCall.sendByte (handleOf E h)) := by
      rintro a b ⟨⟩
      rfl
    exact (map_charInt_eq_iff s).mp (List.map_injective_iff.mpr inj calls)
  · intro ascii
    exact passes_of_ints E A func h heap w none ((map_charInt_eq_iff s).mpr ascii)

/-- All ways to give the bytes of `s` pass them to `SendByte` with their values
exactly when none is above 127. -/
theorem ways_agree_iff (s : Bytes) :
    (∀ v, Gives heap s v → Passes E A func h v heap w s) ↔ ∀ b ∈ s, b < 128 := by
  constructor
  · intro all
    exact (passes_string_iff E A func h heap w s).mp (all _ .string)
  -- a string alone is a table with one piece, and bytes alone are pieces of one byte
  · rintro ascii v (_ | lists | lists | ⟨-, rfl, lists⟩)
    · exact (passes_string_iff E A func h heap w s).mpr ascii
    · have joined : [Piece.text s].flatMap Piece.data = s := by simp [Piece.data]
      have passes : Passes E A func h _ heap w ([Piece.text s].flatMap Piece.data) :=
        passes_pieces E A func h heap w lists (by rwa [joined])
      rwa [joined] at passes
    · have joined : (s.map Piece.byte).flatMap Piece.data = s := by
        simp [List.flatMap_map, Piece.data]
      have values : (s.map Piece.byte).map Piece.value = s.map byteValue := by
        simp [Piece.value, Function.comp_def]
      have passes : Passes E A func h _ heap w ((s.map Piece.byte).flatMap Piece.data) :=
        passes_pieces E A func h heap w (by rwa [values]) (by rwa [joined])
      rwa [joined] at passes
    · exact passes_pieces E A func h heap w lists ascii

end Ways

/-- The byte 200 is passed as -56 when it comes in a string. -/
theorem highByte_differs :
    ¬ ∀ v, Gives (listHeap []) [200] v →
      Passes quietEnv allSent .nil (.number (.fin 1)) v (listHeap []) ⟨[]⟩ [200] := by
  intro all
  have ascii := (passes_string_iff quietEnv allSent .nil (.number (.fin 1)) (listHeap []) ⟨[]⟩
    [200]).mp (all _ .string)
  exact absurd (ascii 200 List.mem_cons_self) (by decide)

/-! ### The number Send returns -/

/-- How many calls an element takes. -/
def pieceLength : TValue → Nat
  | .number _ => 1
  | .string s => s.length
  | _ => 0

/-- How many calls are made for these elements before the one for the last
number; 0 if there is no number. -/
def callsBefore : List TValue → Nat
  | [] => 0
  | v :: rest => if rest.any (·.type = .number) then pieceLength v + callsBefore rest else 0

/-- How many calls `Send` makes for a value before that for the last number of a
table. -/
def callsBeforeLast (heap : Heap σ) (size : Nat) : TValue → Nat
  | .table t => callsBefore (elements heap t size)
  | _ => 0

/-- A number is one byte, a string as many as it has. -/
theorem pieceInts_length (E : LibEnv σ) (v : TValue) :
    (pieceInts E v).length = pieceLength v := by
  cases v <;> simp [pieceInts, pieceLength]

/-- The call for the last number is one of the calls made. -/
theorem callsBefore_le (E : LibEnv σ) (es : List TValue) :
    callsBefore es ≤ (es.flatMap (pieceInts E)).length := by
  induction es with
  | nil => exact Nat.le_refl 0
  | cons v rest ih =>
      rw [callsBefore, List.flatMap_cons, List.length_append, pieceInts_length]
      split <;> omega

/-- The counter holds the successes from the last number on; without a number,
all of them on top of what it was. -/
theorem answeredFrom_eq (E : LibEnv σ) (A : SerialAnswers) (es : List TValue) (ret : Int32)
    (p : Nat) :
    answeredFrom A ret p es =
      (if es.any (·.type = .number) then 0 else ret) +
        Int32.ofNat (successes A (p + callsBefore es)
          ((es.flatMap (pieceInts E)).length - callsBefore es)) := by
  induction es generalizing ret p with
  | nil => simp [answeredFrom, callsBefore]
  | cons v rest ih =>
      have step : ∀ ret', answeredFrom A ret' (p + pieceLength v) rest =
          (if rest.any (·.type = .number) then 0 else ret') +
            Int32.ofNat (successes A (p + pieceLength v + callsBefore rest)
              ((rest.flatMap (pieceInts E)).length - callsBefore rest)) := fun ret' => ih ret' _
      rw [callsBefore, List.flatMap_cons, List.length_append, pieceInts_length, List.any_cons]
      by_cases more : rest.any (·.type = .number) = true
      · -- a later number sets the counter again
        simp only [more, if_true, Bool.or_true] at step ⊢
        rw [Nat.add_sub_add_left, ← Nat.add_assoc, ← step ret]
        cases v with
        | number d => exact (step _).trans (step ret).symm
        | string s => exact (step _).trans (step ret).symm
        | _ => rfl
      · have none : callsBefore rest = 0 := by
          cases rest with
          | nil => rfl
          | cons u us =>
              rw [callsBefore, if_neg]
              simp only [List.any_cons, Bool.or_eq_true, not_or] at more
              exact more.2
        simp only [more, none, if_false, Bool.or_false, Nat.add_zero, Nat.sub_zero,
          Bool.false_eq_true] at step ⊢
        rw [successes_add, Int32.ofNat_add]
        cases v with
        | number d =>
            refine (step _).trans ?_
            simp [TValue.type, pieceLength, boolInt_eq]
        | string s =>
            refine (step _).trans ?_
            simp [TValue.type, pieceLength, Int32.add_assoc]
        | _ =>
            refine (step ret).trans ?_
            simp [TValue.type, pieceLength]

/-- The calls before the last number are some of all the calls. -/
theorem callsBeforeLast_le (E : LibEnv σ) (heap : Heap σ) (size : Nat) (v : TValue) :
    callsBeforeLast heap size v ≤ (ints E heap size v).length := by
  cases v with
  | table t => exact callsBefore_le E _
  | _ => exact Nat.zero_le _

/-- The counter after a value: the successes from the last number of a table on,
in an `int`. -/
theorem answered_eq (E : LibEnv σ) (A : SerialAnswers) (heap : Heap σ) (size p : Nat) (v : TValue) :
    answered A heap size p v = Int32.ofNat (successes A (p + callsBeforeLast heap size v)
      ((ints E heap size v).length - callsBeforeLast heap size v)) := by
  cases v with
  | table t =>
      rw [answered, answeredFrom_eq E]
      simp [callsBeforeLast, ints]
  | number d => simp [answered, boolInt_eq, callsBeforeLast, ints, pieceInts]
  | string s => simp [answered, callsBeforeLast, ints, pieceInts]
  | _ => simp [answered, callsBeforeLast, ints, pieceInts]

/-- An `int` count of some of the successes is their whole number exactly when
none are missing and the number is an `int`. -/
theorem ofNat_eq_total_iff (m k : Nat) :
    (Int32.ofNat m).toInt = ((k + m : Nat) : Int) ↔ k = 0 ∧ m < 2 ^ 31 := by
  have bounds := (Int32.ofNat m).toInt_lt
  have value : m < 2 ^ 31 → (Int32.ofNat m).toInt = m := fun small => Int32.toInt_ofNat_of_lt small
  constructor
  · intro total
    rw [total] at bounds
    have small : m < 2 ^ 31 := by omega
    rw [value small] at total
    omega
  · rintro ⟨rfl, small⟩
    rw [value small, Nat.zero_add]

/-- `Send(h, v)` returns the number of its calls of `SendByte` that succeeded. -/
def Reports (E : LibEnv σ) (A : SerialAnswers) (rounds : Nat) (func h v : TValue) (heap : Heap σ)
    (w : Serial) : Prop :=
  ∃ c, plSerialSend E A rounds ⟨⟨frame func [h, v], heap⟩, w⟩ = .ok 1 c ∧
    c.L.stack.head? = some (.number (.ofNat (successes A w.calls.length
      (c.world.calls.length - w.calls.length))))

/-- `Send` reports its successes exactly when no byte before the last number of
a table was sent with success, and the number of successes is an `int`: every
number of a table sets the counter anew. -/
theorem send_reports_iff (E : LibEnv σ) (A : SerialAnswers) (func h v : TValue) (heap : Heap σ)
    (w : Serial) {size : Nat} (table : ∀ t, v = .table t → FiniteTable heap t size) {rounds : Nat}
    (enough : size < rounds) :
    Reports E A rounds func h v heap w ↔
      successes A w.calls.length (callsBeforeLast heap size v) = 0 ∧
        successes A w.calls.length (ints E heap size v).length < 2 ^ 31 := by
  have run := run_plSerialSend E A func h v heap w table enough
  have reports : Reports E A rounds func h v heap w ↔
      (answered A heap size w.calls.length v).toInt =
        (successes A w.calls.length (ints E heap size v).length : Nat) := by
    rw [Reports, run]
    simp [LuaNumber.ofNat]
    exact_mod_cast Iff.rfl
  have split := successes_add A w.calls.length (callsBeforeLast heap size v)
    ((ints E heap size v).length - callsBeforeLast heap size v)
  rw [Nat.add_sub_cancel' (callsBeforeLast_le E heap size v)] at split
  rw [reports, answered_eq E, split, ofNat_eq_total_iff]
  constructor
  · rintro ⟨none, small⟩
    exact ⟨none, by omega⟩
  · rintro ⟨none, small⟩
    exact ⟨none, by omega⟩

theorem send_reports_iff_mixed :
    Reports quietEnv allSent 3 .nil (.number (.fin 1)) (.table 1)
        (listHeap [.number (.fin 65), .string [66]]) ⟨[]⟩ ↔
      successes allSent 0
          (callsBeforeLast (listHeap [.number (.fin 65), .string [66]]) 2 (.table 1)) = 0 ∧
        successes allSent 0 (ints quietEnv (listHeap [.number (.fin 65), .string [66]]) 2
          (.table 1)).length < 2 ^ 31 := by
  refine send_reports_iff quietEnv allSent _ _ _ _ ⟨[]⟩ ?_ (by decide)
  rintro t ⟨⟩
  exact (listHeap_lists [.number (.fin 65), .string [66]]).finite

/-- Both bytes of `{"A", 66}` are sent, and `Send` returns 1. -/
theorem textBeforeNumber_uncounted :
    ¬ Reports quietEnv allSent 3 .nil (.number (.fin 1)) (.table 1)
      (listHeap [.string [65], .number (.fin 66)]) ⟨[]⟩ := by
  rintro ⟨c, run, head⟩
  have finite := (listHeap_lists [.string [65], .number (.fin 66)]).finite
  rw [run_plSerialSend quietEnv allSent _ _ _ _ ⟨[]⟩ (by rintro t ⟨⟩; exact finite)
    (by decide)] at run
  injection run with _ same
  subst same
  exact absurd head (by decide +kernel)

end ProfiLua
