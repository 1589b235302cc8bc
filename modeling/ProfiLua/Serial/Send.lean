import Mathlib.Data.List.TakeWhile
import ProfiLua.Serial.Functions

/-!
What `Send` passes to `SendByte`, and what it returns.

`elements` are the elements of a table that `plSerialSend` gets to: up to the
first that is neither a number nor a string. `ints` are the `int`s it sends for
a value, `answered` is what its counter makes of the answers. `run_plSerialSend`
gives both for every value, at once with the stack the call leaves.
-/

namespace ProfiLua

open Program

/-- What `Send` sends an element of. -/
def TValue.sendable (v : TValue) : Bool := v.type = .number || v.type = .string

section Data

variable {σ : Type}

/-- The element at index `i`, as a plain table has it. -/
def elementAt (heap : Heap σ) (t i : Nat) : TValue := (heap.table t).node (.number (.ofNat i))

/-- The elements of a table with no entries beyond `size`, up to the first that
cannot be sent. -/
def elements (heap : Heap σ) (t size : Nat) : List TValue :=
  ((List.range' 1 size).map (elementAt heap t)).takeWhile TValue.sendable

/-- A plain table without entries beyond `size`. -/
structure FiniteTable (heap : Heap σ) (t size : Nat) : Prop where
  plain : (heap.table t).metatable = false
  finite : ∀ i, size < i → elementAt heap t i = .nil

/-- The values that are passed to `SendByte` for a number or a string. -/
def pieceInts (E : LibEnv σ) : TValue → List Int32
  | .number d => [castInt E.casts d]
  | .string s => s.map charInt
  | _ => []

/-- The values that are passed to `SendByte`. -/
def ints (E : LibEnv σ) (heap : Heap σ) (size : Nat) : TValue → List Int32
  | .table t => (elements heap t size).flatMap (pieceInts E)
  | v => pieceInts E v

/-- How many of `n` answers, from the one at `p` on, are successes. -/
def successes (A : SerialAnswers) (p n : Nat) : Nat := (List.range' p n).countP A.sendByte

/-- The counter after these elements of a table: a number sets it. -/
def answeredFrom (A : SerialAnswers) (ret : Int32) (p : Nat) : List TValue → Int32
  | [] => ret
  | .number _ :: rest => answeredFrom A (boolInt (A.sendByte p)) (p + 1) rest
  | .string s :: rest =>
      answeredFrom A (ret + Int32.ofNat (successes A p s.length)) (p + s.length) rest
  | _ :: rest => answeredFrom A ret p rest

/-- The counter after a value. -/
def answered (A : SerialAnswers) (heap : Heap σ) (size p : Nat) : TValue → Int32
  | .table t => answeredFrom A 0 p (elements heap t size)
  | .number _ => boolInt (A.sendByte p)
  | .string s => Int32.ofNat (successes A p s.length)
  | _ => 0

/-- The calls after these values were sent. -/
def Serial.sent (s : Serial) (handle : Int32) (values : List Int32) : Serial :=
  ⟨s.calls ++ values.map (.sendByte handle)⟩

@[simp] theorem Serial.sent_nil (s : Serial) (handle : Int32) : s.sent handle [] = s := by
  simp [Serial.sent]

theorem Serial.sent_cons (s : Serial) (handle value : Int32) (l : List Int32) :
    s.sent handle (value :: l) = (s.sent handle [value]).sent handle l := by
  simp [Serial.sent]

/-- Two stretches of bytes are sent one after the other. -/
theorem Serial.sent_append (s : Serial) (handle : Int32) (l k : List Int32) :
    s.sent handle (l ++ k) = (s.sent handle l).sent handle k := by
  simp [Serial.sent]

@[simp] theorem Serial.sent_length (s : Serial) (handle : Int32) (l : List Int32) :
    (s.sent handle l).calls.length = s.calls.length + l.length := by
  simp [Serial.sent]

@[simp] theorem successes_zero (A : SerialAnswers) (p : Nat) : successes A p 0 = 0 := rfl

/-- The first answer is counted, then the others. -/
theorem successes_succ (A : SerialAnswers) (p n : Nat) :
    successes A p (n + 1) = (if A.sendByte p then 1 else 0) + successes A (p + 1) n := by
  simp only [successes, List.range'_succ, List.countP_cons]
  omega

theorem successes_add (A : SerialAnswers) (p m n : Nat) :
    successes A p (m + n) = successes A p m + successes A (p + m) n := by
  simp [successes, List.range'_append_1, ← List.countP_append]

/-- The `int` that is added for a byte is the number of its successes. -/
theorem boolInt_eq (A : SerialAnswers) (p : Nat) :
    boolInt (A.sendByte p) = Int32.ofNat (successes A p 1) := by
  simp only [successes_succ, successes_zero, boolInt]
  cases A.sendByte p <;> rfl

end Data

/-! ### The loops -/

section Loops

variable {σ : Type} {E : LibEnv σ} {A : SerialAnswers} {func h v : TValue} {heap : Heap σ}
  {w : Serial}

/-- The handle every `SendByte` gets. -/
def handleOf (E : LibEnv σ) (h : TValue) : Int32 := castInt E.casts (h.num E.toCLib)

/-- With a value on top, the arguments stay where they are: it looks like one
more argument. -/
theorem frame_above (func u : TValue) (args : List TValue) :
    u :: frame func args = frame func (args ++ [u]) := by
  simp [frame]

/-- An argument is converted to a number, and that to an `int`. -/
theorem run_luaToint_arg {args : List TValue} {narg : Nat} {v : TValue} (pos : 1 ≤ narg)
    (arg : args[narg - 1]? = some v) :
    luaToint E narg ⟨frame func args, heap⟩ =
      .ok (castInt E.casts (v.num E.toCLib)) ⟨frame func args, heap⟩ :=
  ok_bind (ok_bind (run_valueAt (index2adr_arg pos arg)) rfl) rfl

theorem run_luaToint_above {args : List TValue} (arg : args[0]? = some h) (u : TValue) :
    luaToint E 1 ⟨u :: frame func args, heap⟩ =
      .ok (handleOf E h) ⟨u :: frame func args, heap⟩ := by
  rw [frame_above]
  refine run_luaToint_arg (Nat.le_refl 1) ?_
  obtain ⟨inside, rfl⟩ := List.getElem?_eq_some_iff.mp arg
  simp [inside]

theorem run_luaToint_top {rest : List TValue} :
    luaToint E (-1) ⟨v :: rest, heap⟩ =
      .ok (castInt E.casts (v.num E.toCLib)) ⟨v :: rest, heap⟩ :=
  ok_bind (run_luaTonumber E.toEnv) rfl

/-- `SendByte` is recorded, and answers what the library answers at this place. -/
theorem run_sendByte (handle byte : Int32) :
    sendByte A handle byte w = .ok (A.sendByte w.calls.length) (w.sent handle [byte]) := rfl

/-- A string is sent byte by byte; the counter goes up by the successes. The
handle is read again for each of them. -/
theorem run_sendString {args : List TValue} (arg : args[0]? = some h) (s : Bytes) (ret : Int32) :
    sendString E A ret s ⟨⟨frame func args, heap⟩, w⟩ =
      .ok (ret + Int32.ofNat (successes A w.calls.length s.length))
        ⟨⟨frame func args, heap⟩, w.sent (handleOf E h) (s.map charInt)⟩ := by
  induction s generalizing ret w with
  | nil => simp [sendString]
  | cons b rest ih =>
      refine ok_bind (run_onLua (run_luaToint_arg (Nat.le_refl 1) arg))
        (ok_bind (run_onWorld (run_sendByte _ _)) ?_)
      rw [ih]
      congr 1
      · rw [boolInt_eq, List.length_cons, Nat.add_comm rest.length 1, successes_add,
          Serial.sent_length]
        simp [Int32.add_assoc, Int32.ofNat_add]
      · rw [List.map_cons, Serial.sent_cons w _ _ (rest.map charInt)]
        rfl

theorem run_sendString_above {args : List TValue} (arg : args[0]? = some h) (u : TValue) (s : Bytes)
    (ret : Int32) :
    sendString E A ret s ⟨⟨u :: frame func args, heap⟩, w⟩ =
      .ok (ret + Int32.ofNat (successes A w.calls.length s.length))
        ⟨⟨u :: frame func args, heap⟩, w.sent (handleOf E h) (s.map charInt)⟩ := by
  rw [frame_above]
  refine run_sendString ?_ s ret
  obtain ⟨inside, rfl⟩ := List.getElem?_eq_some_iff.mp arg
  simp [inside]

theorem run_luaType_top (v : TValue) (rest : List TValue) (heap : Heap σ) :
    luaType (-1) ⟨v :: rest, heap⟩ = .ok v.type ⟨v :: rest, heap⟩ :=
  ok_bind run_valueAt_top rfl

theorem run_luaType_arg {args : List TValue} {narg : Nat} {v : TValue} (pos : 1 ≤ narg)
    (arg : args[narg - 1]? = some v) :
    luaType narg ⟨frame func args, heap⟩ = .ok v.type ⟨frame func args, heap⟩ :=
  ok_bind (run_valueAt (index2adr_arg pos arg)) rfl

theorem run_stringAt_top (s : Bytes) (rest : List TValue) (heap : Heap σ) :
    stringAt (-1) ⟨.string s :: rest, heap⟩ = .ok s ⟨.string s :: rest, heap⟩ :=
  ok_bind run_valueAt_top rfl

/-- An element is read to the top of the frame, in place of its index. -/
theorem run_luaGettable_arg {t : Nat} (plain : (heap.table t).metatable = false) (i : Nat) :
    luaGettable E.toEnv 2 ⟨.number (.ofNat i) :: frame func [h, .table t], heap⟩ =
      .ok ⟨⟩ ⟨elementAt heap t i :: frame func [h, .table t], heap⟩ := by
  have table : index2adr ⟨.number (.ofNat i) :: frame func [h, .table t], heap⟩ 2 =
      some (.table t) := by
    rw [frame_above]
    exact index2adr_arg (by decide) rfl
  have get : luaVGettable E.toEnv (.table t) (.number (.ofNat i))
      ⟨.number (.ofNat i) :: frame func [h, .table t], heap⟩ =
      .ok (elementAt heap t i) ⟨.number (.ofNat i) :: frame func [h, .table t], heap⟩ := by
    unfold luaVGettable
    rw [run_bind_ok (run_get _)]
    simp only [plain, or_true, if_true]
    rfl
  exact ok_bind (run_valueAt table) (ok_bind run_valueAt_top (ok_bind get rfl))

/-- The loop over a table: from index `i` on there are these elements, and then
one that cannot be sent. By induction on the elements; one round more than there
are is enough. -/
theorem run_sendTable {t : Nat} (plain : (heap.table t).metatable = false) {es : List TValue}
    (all : ∀ v ∈ es, v.sendable = true) {i : Nat}
    (here : ∀ j, (lt : j < es.length) → elementAt heap t (i + j) = es[j])
    (stop : (elementAt heap t (i + es.length)).sendable = false) {rounds : Nat}
    (enough : es.length < rounds) (ret : Int32) :
    sendTable E A rounds i ret ⟨⟨frame func [h, .table t], heap⟩, w⟩ =
      .ok (answeredFrom A ret w.calls.length es)
        ⟨⟨frame func [h, .table t], heap⟩, w.sent (handleOf E h) (es.flatMap (pieceInts E))⟩ := by
  induction es generalizing i rounds ret w with
  | nil =>
      obtain ⟨rounds, rfl⟩ : ∃ r, rounds = r + 1 := ⟨rounds - 1, by simp at enough; omega⟩
      refine ok_bind (run_onLua (run_push _ _)) (ok_bind (run_onLua (run_luaGettable_arg plain i))
        (ok_bind (run_onLua (run_luaType_top _ _ _)) ?_))
      simp only [TValue.sendable, List.length_nil, Nat.add_zero, Bool.or_eq_false_iff,
        decide_eq_false_iff_not] at stop
      refine ok_ite_false stop.1 (ok_ite_false stop.2 ?_)
      refine ok_bind (run_onLua run_luaPop_one) ?_
      simp [answeredFrom]
  | cons v rest ih =>
      obtain ⟨rounds, rfl⟩ : ∃ r, rounds = r + 1 := ⟨rounds - 1, by simp at enough; omega⟩
      have first : elementAt heap t i = v := here 0 (by simp)
      have get : luaGettable E.toEnv 2 ⟨.number (.ofNat i) :: frame func [h, .table t], heap⟩ =
          .ok ⟨⟩ ⟨v :: frame func [h, .table t], heap⟩ := by
        rw [← first]
        exact run_luaGettable_arg plain i
      have later : ∀ (u : Serial) (ret : Int32),
          sendTable E A rounds (i + 1) ret ⟨⟨frame func [h, .table t], heap⟩, u⟩ =
            .ok (answeredFrom A ret u.calls.length rest) ⟨⟨frame func [h, .table t], heap⟩,
              u.sent (handleOf E h) (rest.flatMap (pieceInts E))⟩ := by
        intro u ret
        refine ih (fun x mem => all x (List.mem_cons_of_mem _ mem)) (fun j lt => ?_) ?_
          (by simpa using enough) ret
        · have next := here (j + 1) (by simpa using lt)
          rwa [List.getElem_cons_succ, ← Nat.add_assoc, Nat.add_right_comm] at next
        · rwa [List.length_cons, ← Nat.add_assoc, Nat.add_right_comm] at stop
      refine ok_bind (run_onLua (run_push _ _)) (ok_bind (run_onLua get)
        (ok_bind (run_onLua (run_luaType_top _ _ _)) ?_))
      cases v with
      | number d =>
          -- a number replaces the counter, a string adds to it
          refine ok_ite_true rfl (ok_bind (run_onLua (run_luaToint_above rfl _))
            (ok_bind (run_onLua run_luaToint_top) (ok_bind (run_onWorld (run_sendByte _ _))
              (ok_bind (run_onLua run_luaPop_one) ?_))))
          rw [later, List.flatMap_cons, Serial.sent_append]
          simp [answeredFrom, pieceInts]
      | string s =>
          refine ok_ite_false (by simp [TValue.type]) (ok_ite_true rfl
            (ok_bind (run_onLua (run_stringAt_top s _ _))
              (ok_bind (run_sendString_above rfl _ s ret)
              (ok_bind (run_onLua run_luaPop_one) ?_))))
          rw [later, List.flatMap_cons, Serial.sent_append]
          simp [answeredFrom, pieceInts]
      | _ => exact absurd (all _ List.mem_cons_self) (by simp [TValue.sendable, TValue.type])

end Loops

/-! ### The call -/

section Call

variable {σ : Type} (E : LibEnv σ) (A : SerialAnswers)

/-- The elements that are sent are all sendable, and are those of the table. The
one behind them is not sendable, or does not exist. -/
theorem elements_spec (heap : Heap σ) {t size : Nat} (table : FiniteTable heap t size) :
    (∀ v ∈ elements heap t size, v.sendable = true) ∧
      (∀ j, (lt : j < (elements heap t size).length) →
        elementAt heap t (1 + j) = (elements heap t size)[j]) ∧
      (elementAt heap t (1 + (elements heap t size).length)).sendable = false ∧
      (elements heap t size).length ≤ size := by
  have split : elements heap t size ++
      ((List.range' 1 size).map (elementAt heap t)).dropWhile TValue.sendable =
        (List.range' 1 size).map (elementAt heap t) := List.takeWhile_append_dropWhile
  have sizes := congrArg List.length split
  have at_ : ∀ j, j < size →
      ((List.range' 1 size).map (elementAt heap t))[j]? = some (elementAt heap t (1 + j)) := by
    intro j lt
    simp [lt]
  simp only [List.length_append, List.length_map, List.length_range'] at sizes
  refine ⟨fun v mem => List.mem_takeWhile_imp mem, fun j lt => ?_, ?_, by omega⟩
  · have same := at_ j (by omega)
    rw [← split, List.getElem?_append_left lt, List.getElem?_eq_getElem lt] at same
    exact (Option.some.inj same).symm
  · cases rest : ((List.range' 1 size).map (elementAt heap t)).dropWhile TValue.sendable with
    | nil =>
        rw [rest, List.length_nil] at sizes
        rw [table.finite _ (by omega)]
        rfl
    | cons x more =>
        have bad : x.sendable = false := by
          have first := List.head?_dropWhile_not TValue.sendable
            ((List.range' 1 size).map (elementAt heap t))
          rw [rest] at first
          simpa using first
        rw [rest, List.length_cons] at sizes
        have same := at_ (elements heap t size).length (by omega)
        rw [← split, List.getElem?_append_right (Nat.le_refl _), rest, Nat.sub_self] at same
        rw [← Option.some.inj same]
        exact bad

/-- `Send(h, v)` for every value: what it pushes and what it sends. Of a value
that is no number, string or table nothing is sent. -/
theorem run_plSerialSend (func h v : TValue) (heap : Heap σ) (w : Serial) {size rounds : Nat}
    (table : ∀ t, v = .table t → FiniteTable heap t size) (enough : size < rounds) :
    plSerialSend E A rounds ⟨⟨frame func [h, v], heap⟩, w⟩ =
      .ok 1 ⟨⟨.number (.fin (answered A heap size w.calls.length v).toInt) :: frame func [h, v],
        heap⟩, w.sent (handleOf E h) (ints E heap size v)⟩ := by
  have returns : ∀ (ret : Int32) (u : Serial),
      returnInt ret ⟨⟨frame func [h, v], heap⟩, u⟩ =
        .ok 1 ⟨⟨.number (.fin ret.toInt) :: frame func [h, v], heap⟩, u⟩ := fun _ _ => rfl
  have second : index2adr ⟨frame func [h, v], heap⟩ 2 = some v := index2adr_arg (by decide) rfl
  refine ok_bind (run_onLua (run_luaGettop func [h, v] heap)) (ok_ite_true rfl
    (ok_bind (run_onLua (run_luaType_arg (by decide) rfl)) ?_))
  cases v with
  | number d =>
      refine ok_bind (run_onLua (run_luaToint_arg (Nat.le_refl 1) rfl))
        (ok_bind (run_onLua (run_luaToint_arg (by decide) rfl)) (ok_bind
          (run_onWorld (run_sendByte _ _)) (returns _ _)))
  | string s =>
      refine ok_bind (run_onLua (ok_bind (run_valueAt second) rfl))
        (ok_bind (run_sendString rfl s 0) ?_)
      rw [returns]
      simp [answered, ints, pieceInts]
  | table t =>
      obtain ⟨all, here, stop, few⟩ := elements_spec heap (table t rfl)
      refine ok_bind (run_sendTable (table t rfl).plain all here stop (by omega) 0) ?_
      exact returns _ _
  | _ => exact (returns 0 w).trans (by simp [answered, ints, pieceInts])

end Call

end ProfiLua
