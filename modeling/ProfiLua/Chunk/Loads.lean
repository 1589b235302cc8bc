import ProfiLua.Chunk.Dump

/-!
What the parts of a chunk are loaded as: the stream by any reader, one byte after
the other, and for each part that is dumped the same part again.
-/

namespace ProfiLua

open Program (Supply Decoder Encoder Carries littleEndian ofLittleEndian
  ofLittleEndian_littleEndian littleEndian_length)

/-! ### The stream -/

section Streams

variable {σ : Type} {reader : Reader σ}

/-- The bytes of a stream, one after the other. -/
def zio (reader : Reader σ) : Supply (Zio σ) UInt8 where
  next z :=
    match luaZLookahead reader z with
    | (none, _) => none
    | (some c, z) => some (c, { z with p := z.p.tail })

/-- `luaZ_lookahead` leaves the byte it sees in the buffer. -/
theorem lookahead_some {z z' : Zio σ} {c : UInt8} (seen : luaZLookahead reader z = (some c, z')) :
    ∃ p, z'.p = c :: p := by
  unfold luaZLookahead at seen
  split at seen
  · rename_i held
    cases seen
    exact ⟨_, held⟩
  · split at seen
    · cases seen
    · cases seen
      exact ⟨_, rfl⟩

/-- With bytes in the buffer the reader is not asked. -/
theorem lookahead_cons {z : Zio σ} {c : UInt8} {p : Bytes} (held : z.p = c :: p) :
    luaZLookahead reader z = (some c, z) := by
  simp only [luaZLookahead, held]

/-- What a stream gives after it was looked at is what it gave before. The
reader may have been asked for a new piece in between. -/
theorem next_lookahead {z z' : Zio σ} {c : UInt8} (seen : luaZLookahead reader z = (some c, z')) :
    (zio reader).next z' = (zio reader).next z := by
  obtain ⟨p, held⟩ := lookahead_some seen
  simp only [zio, seen, lookahead_cons held]

/-- If even the reader has nothing left, no byte comes. -/
theorem next_none {z z' : Zio σ} (ended : luaZLookahead reader z = (none, z')) :
    (zio reader).next z = none := by
  simp only [zio, ended]

/-- Looking ahead takes nothing: the stream feeds the same bytes after it, and
ends in the same place. -/
theorem feeds_lookahead {z z' k : Zio σ} {c b : UInt8} {w : Bytes}
    (seen : luaZLookahead reader z = (some c, z')) (fed : (zio reader).Feeds z (b :: w) k) :
    (zio reader).Feeds z' (b :: w) k := by
  cases fed with
  | cons head tail => exact .cons ((next_lookahead seen).trans head) tail

theorem short_lookahead {z z' : Zio σ} {c b : UInt8} {w : Bytes}
    (seen : luaZLookahead reader z = (some c, z')) (short : (zio reader).Short z (b :: w)) :
    (zio reader).Short z' (b :: w) := by
  cases short with
  | stop _ _ head => exact .stop b w ((next_lookahead seen).trans head)
  | cons head tail => exact .cons ((next_lookahead seen).trans head) tail

/-- The buffer comes first, and the reader is not asked while it lasts. -/
theorem feeds_buffer (u p : Bytes) (data : σ) :
    (zio reader).Feeds ⟨u ++ p, data⟩ u ⟨p, data⟩ := by
  induction u with
  | nil => exact .nil _
  | cons c u ih => exact .cons rfl ih

theorem feeds_take (z : Zio σ) (m : Nat) :
    (zio reader).Feeds z (z.p.take m) { z with p := z.p.drop m } := by
  have fed : (zio reader).Feeds ⟨z.p.take m ++ z.p.drop m, z.data⟩ (z.p.take m)
      ⟨z.p.drop m, z.data⟩ := feeds_buffer _ _ _
  rwa [List.take_append_drop] at fed

/-- What is left to read after a whole buffer, or after all of it that is
wanted: the bytes wanted are those of the buffer, and then those that are fed
after it. -/
theorem split_buffer {z : Zio σ} {w : Bytes} {k : Zio σ} {m : Nat} (few : m ≤ w.length)
    (held : m ≤ z.p.length) (fed : (zio reader).Feeds z w k) :
    w = z.p.take m ++ w.drop m ∧ (zio reader).Feeds { z with p := z.p.drop m } (w.drop m) k := by
  rw [← List.take_append_drop m w] at fed
  obtain ⟨j, first, second⟩ := Supply.feeds_append.mp fed
  obtain ⟨same, rfl⟩ := first.unique (feeds_take z m) (by simp; omega)
  exact ⟨by rw [← same, List.take_append_drop], second⟩

/-- A round that finds bytes in the buffer takes what is wanted of them, and
leaves the rest of the work to the next rounds. -/
theorem luaZReadFrom_round {rounds n : Nat} {z z' : Zio σ} {c : UInt8} (wanted : n ≠ 0)
    (seen : luaZLookahead reader z = (some c, z')) :
    luaZReadFrom reader (rounds + 1) n z =
      let m := min n z'.p.length
      let rest := luaZReadFrom reader rounds (n - m) { z' with p := z'.p.drop m }
      (z'.p.take m ++ rest.1, rest.2) := by
  rw [luaZReadFrom, if_neg wanted, seen]
  rfl

/-- Reading by blocks is reading byte by byte, however the reader cuts the bytes
into pieces. Each round takes one byte at least, so as many rounds as bytes are
enough. -/
theorem luaZReadFrom_feeds {rounds n : Nat} {z k : Zio σ} {w : Bytes} (enough : n ≤ rounds)
    (length : w.length = n) (fed : (zio reader).Feeds z w k) :
    luaZReadFrom reader rounds n z = (w, 0, k) := by
  induction rounds generalizing n z w with
  | zero =>
      obtain rfl : n = 0 := by omega
      obtain rfl := List.length_eq_zero_iff.mp length
      cases fed
      rfl
  | succ rounds ih =>
      cases w with
      | nil =>
          subst length
          cases fed
          rfl
      | cons c w =>
          have wanted : n ≠ 0 := by
            rw [← length]
            simp
          rcases seen : luaZLookahead reader z with ⟨_ | c', z'⟩
          · cases fed with
            | cons head _ => rw [next_none seen] at head; cases head
          · obtain ⟨p, held⟩ := lookahead_some seen
            have some : 0 < z'.p.length := by
              rw [held]
              simp
            rw [luaZReadFrom_round wanted seen]
            set m := min n z'.p.length with mEq
            obtain ⟨whole, rest⟩ := split_buffer (by omega) (by omega : m ≤ _)
              (feeds_lookahead seen fed)
            have after := ih (n := n - m) (by omega) (by rw [List.length_drop, length]) rest
            simp only [after]
            rw [← whole]

/-- A stream that ends too early leaves bytes missing. The rounds may be as many
as wanted. -/
theorem luaZReadFrom_short {rounds n : Nat} {z : Zio σ} {w : Bytes} (enough : n ≤ rounds)
    (length : w.length = n) (short : (zio reader).Short z w) :
    (luaZReadFrom reader rounds n z).2.1 ≠ 0 := by
  induction rounds generalizing n z w with
  | zero =>
      obtain rfl : n = 0 := by omega
      obtain rfl := List.length_eq_zero_iff.mp length
      exact short.not_nil.elim
  | succ rounds ih =>
      cases w with
      | nil => exact short.not_nil.elim
      | cons c w =>
          have wanted : n ≠ 0 := by
            rw [← length]
            simp
          rcases seen : luaZLookahead reader z with ⟨_ | c', z'⟩
          · rw [luaZReadFrom, if_neg wanted, seen]
            exact wanted
          · obtain ⟨p, held⟩ := lookahead_some seen
            have some : 0 < z'.p.length := by
              rw [held]
              simp
            rw [luaZReadFrom_round wanted seen]
            set m := min n z'.p.length with mEq
            have same : (z'.p.take m).length = ((c :: w).take m).length := by
              rw [List.length_take, List.length_take, length]
              omega
            have short' := short_lookahead seen short
            rw [← List.take_append_drop m (c :: w)] at short'
            -- the stream cannot end inside the piece that is there, so it ends after it
            rcases Supply.short_append.mp short' with early | ⟨j, fed, late⟩
            · exact absurd early ((feeds_take z' m).not_short same)
            · obtain ⟨-, rfl⟩ := fed.unique (feeds_take z' m) same.symm
              exact ih (n := n - m) (by omega) (by rw [List.length_drop, length]) late

end Streams

/-! ### Blocks and words -/

section Words

variable {σ : Type} {S : LoadState σ}

/-- The dumped part `x` is loaded by `d` as `a`. -/
abbrev Loads {α : Type} (S : LoadState σ) (x : Encoder UInt8) (d : Loader σ α) (a : α) : Prop :=
  Carries (zio S.reader) (S.error "unexpected end") x d a

/-- The word `w` is loaded by `d` as `a`. -/
abbrev LoadsBytes {α : Type} (S : LoadState σ) (w : Bytes) (d : Loader σ α) (a : α) : Prop :=
  d.Takes (zio S.reader) (S.error "unexpected end") w a

/-- A block takes as many bytes as it is long, and starves on fewer. -/
theorem loadBlock_takes {n : Nat} {w : Bytes} (length : w.length = n) :
    LoadsBytes S w (loadBlock S n) w where
  reads z z' fed := by
    simp only [loadBlock, luaZRead, luaZReadFrom_feeds (le_refl n) length fed, ne_eq,
      not_true_eq_false, if_false]
  starves z short := by
    have missing := luaZReadFrom_short (le_refl n) length short
    simp only [loadBlock, luaZRead]
    exact if_pos missing

/-- A number in memory order is read back modulo its size. -/
theorem loadVar_takes (size n : Nat) :
    LoadsBytes S (littleEndian size n) (loadVar S size) (n % 256 ^ size) := by
  rw [← ofLittleEndian_littleEndian]
  exact (loadBlock_takes (littleEndian_length size n)).map ofLittleEndian

/-- What is small enough for its size comes back. -/
theorem loads_var {size n : Nat} (small : n < 256 ^ size) :
    Loads S (dumpVar size n) (loadVar S size) n := by
  have takes := loadVar_takes (S := S) size n
  rw [Nat.mod_eq_of_lt small] at takes
  exact .block takes

theorem loadChar_takes (b : UInt8) : LoadsBytes S [b] (loadChar S) b.toInt8.toInt :=
  (loadBlock_takes (n := 1) rfl).map fun b => (b.headD 0).toInt8.toInt

theorem loads_char {y : Int} (small : -128 ≤ y ∧ y < 128) :
    Loads S (dumpChar y) (loadChar S) y := by
  have takes := loadChar_takes (S := S) (Int8.ofInt y).toUInt8
  rw [Int8.toInt8_toUInt8, Int8.toInt_ofInt_of_le (by simpa using small.1)
    (by simpa using small.2)] at takes
  exact .block takes

theorem loads_byte (x : UChar) : Loads S (dumpChar x.toNat) (loadByte S) x := by
  have takes := (loadChar_takes (S := S) (Int8.ofInt x.toNat).toUInt8).map
    fun y => (Int8.ofInt y).toUInt8
  have back : (Int8.ofInt x.toNat).toUInt8 = x := by
    rw [Int8.ofInt_eq_ofNat, Int8.toUInt8_ofNat', UInt8.ofNat_toNat]
  rw [Int8.ofInt_toInt, UInt8.toUInt8_toInt8, back] at takes
  rw [dumpChar, back]
  exact .block takes

/-- An `int` that is not negative comes back. The loader refuses the others. -/
theorem loads_int (x : NonNeg) : Loads S (dumpInt x) (loadInt S) x := by
  have small : x.val % 256 ^ 4 % 2 ^ 32 = x.val := by
    have := x.isLt
    omega
  have result : LoadsBytes S [] (if negative : x.val % 256 ^ 4 % 2 ^ 32 ≥ 2 ^ 31 then
      S.throw "bad integer" else return ⟨x.val % 256 ^ 4 % 2 ^ 32, not_le.mp negative⟩) x := by
    rw [dif_neg (by rw [small]; exact not_le.mpr x.isLt)]
    simp only [small]
    exact .pure x
  have both : LoadsBytes S (littleEndian 4 x ++ []) (loadInt S) x := (loadVar_takes 4 x).bind result
  rw [List.append_nil] at both
  exact .block both

/-- A number comes back as its bit pattern, so also the ones that are no
numbers. -/
theorem loads_number (image : UInt64) : Loads S (dumpNumber image) (loadNumber S) image := by
  have takes := (loadVar_takes (S := S) 8 image.toNat).map UInt64.ofNat
  rw [Nat.mod_eq_of_lt (by simpa using image.toNat_lt), UInt64.ofNat_toNat] at takes
  exact .block takes

/-! ### Strings, vectors, lists -/

/-- A string that a block can hold. -/
def StringFits (s : Option Bytes) : Prop := ∀ t ∈ s, t.length + 1 ≤ MAX_SIZET - sizeofTString

theorem stringFits_none : StringFits none := by
  intro t mem
  cases mem

/-- A vector of elements of `e` bytes that a block can hold. -/
def VectorFits {α : Type} (e : Nat) (xs : List α) : Prop := xs.length + 1 ≤ MAX_SIZET / e

instance StringFits.decidable (s : Option Bytes) : Decidable (StringFits s) :=
  match s with
  | none => .isTrue stringFits_none
  | some t => decidable_of_iff (t.length + 1 ≤ MAX_SIZET - sizeofTString)
      ⟨fun fits _ mem => Option.some.inj mem ▸ fits, fun fits => fits t rfl⟩

instance VectorFits.decidable {α : Type} (e : Nat) (xs : List α) : Decidable (VectorFits e xs) :=
  inferInstanceAs (Decidable (_ ≤ _))

/-- A string comes back with its length in front, the byte 0 at its end
included; no string is length 0. -/
theorem loads_string {s : Option Bytes} (fits : StringFits s) :
    Loads S (dumpString s) (loadString S) s := by
  cases s with
  | none =>
      have takes := loadVar_takes (S := S) 4 0
      rw [Nat.zero_mod] at takes
      have both : LoadsBytes S (littleEndian 4 0 ++ []) (loadString S) none :=
        takes.bind (.pure none)
      rw [List.append_nil] at both
      exact .block both
  | some s =>
      have fits : s.length + 1 ≤ MAX_SIZET - sizeofTString := fits s rfl
      have small : s.length + 1 < 2 ^ 32 - 3 - 15 := by
        simp only [MAX_SIZET, sizeofTString] at fits
        omega
      refine (loads_var (by omega)).append ?_
      rw [if_neg (by omega), if_pos (by simp only [MAX_SIZET]; omega)]
      simp only [if_pos fits]
      have takes : LoadsBytes S (s ++ [0]) (loadBlock S (s.length + 1)) (s ++ [0]) :=
        loadBlock_takes (by simp)
      have both := takes.map fun b => some (b.take (s.length + 1 - 1))
      rw [Nat.add_sub_cancel, List.take_left] at both
      exact .block both

/-- A check that passes reads nothing. -/
theorem luaMNewvector_pass {σ : Type} {n e : Nat} (fits : n + 1 ≤ MAX_SIZET / e) :
    (luaMNewvector n e : Loader σ Unit) = pure () := if_pos fits

@[simp] theorem flatMap_words_length (ws : List UInt32) :
    (ws.flatMap fun w => littleEndian 4 w.toNat).length = ws.length * 4 := by
  induction ws with
  | nil => rfl
  | cons w ws ih =>
      rw [List.flatMap_cons, List.length_append, ih, littleEndian_length, List.length_cons]
      omega

/-- Cutting the bytes of words gives the words, in their order. -/
theorem words_flatMap (ws : List UInt32) :
    words ws.length (ws.flatMap fun w => littleEndian 4 w.toNat) = ws := by
  induction ws with
  | nil => rfl
  | cons w ws ih =>
      have small : w.toNat % 256 ^ 4 = w.toNat := Nat.mod_eq_of_lt w.toNat_lt
      rw [List.flatMap_cons, List.length_cons, words, List.take_left' (littleEndian_length 4 _),
        List.drop_left' (littleEndian_length 4 _), ih, ofLittleEndian_littleEndian, small,
        UInt32.ofNat_toNat]

/-- The length of a vector that fits is an `int`, as no element takes less than
four bytes. -/
theorem VectorFits.lt {α : Type} {e : Nat} {xs : List α} (fits : VectorFits e xs) (four : 4 ≤ e) :
    xs.length < 2 ^ 31 := by
  have : MAX_SIZET / e ≤ MAX_SIZET / 4 := Nat.div_le_div_left four (by omega)
  have few : MAX_SIZET / 4 < 2 ^ 31 := by decide
  unfold VectorFits at fits
  omega

/-- An array comes back with its length in front, as one block. -/
theorem loads_vector {ws : List UInt32} (fits : VectorFits 4 ws) :
    Loads S (dumpVector ws) (loadVector S) ws := by
  refine (loads_int ⟨ws.length, fits.lt (le_refl 4)⟩).append ?_
  rw [luaMNewvector_pass fits, pure_bind]
  have takes := (loadBlock_takes (S := S) (flatMap_words_length ws)).map (words ws.length)
  rw [words_flatMap] at takes
  exact .block takes

/-- The elements of a vector, loaded one after the other, each by a loader of
its own kind. -/
theorem loads_elements {α γ : Type} {size : Nat} {element : Loader σ α} {x : γ → Encoder UInt8}
    {g : γ → α} {cs : List γ} (fits : VectorFits size cs) (four : 4 ≤ size)
    (all : ∀ c ∈ cs, Loads S (x c) element (g c)) :
    Loads S (dumpInt cs.length ++ .each x cs) (loadElements S size element) (cs.map g) := by
  refine (loads_int ⟨cs.length, fits.lt four⟩).append ?_
  rw [luaMNewvector_pass fits, pure_bind]
  exact .each all

/-- A constant that fits. -/
def Constant.Fits : Constant → Prop
  | .string s => StringFits s
  | _ => True

instance Constant.Fits.decidable (o : Constant) : Decidable o.Fits :=
  match o with
  | .string s => inferInstanceAs (Decidable (StringFits s))
  | .nil | .boolean _ | .number _ => .isTrue trivial

/-- A constant comes back with its type in front, which says how the rest is to
be read. -/
theorem loads_constant {o : Constant} (fits : o.Fits) :
    Loads S (dumpConstant o) (loadConstant S) o := by
  cases o with
  | nil =>
      refine (loads_char (by simp [Constant.ttype])).append ?_
      exact .nothing _
  | boolean b =>
      refine (loads_char (by simp [Constant.ttype])).append ?_
      have loads : Loads S (dumpChar b.toNat) _ _ :=
        (loads_char (by cases b <;> decide)).map fun y => Constant.boolean (y ≠ 0)
      cases b <;> exact loads
  | number image =>
      refine (loads_char (by simp [Constant.ttype])).append ?_
      exact (loads_number image).map Constant.number
  | string s =>
      refine (loads_char (by simp [Constant.ttype])).append ?_
      exact (loads_string fits).map Constant.string

theorem loads_locVar {v : LocVar} (fits : StringFits v.varname) :
    Loads S (dumpLocVar v) (loadLocVar S) v :=
  (loads_string fits).append ((loads_int v.startpc).append
    ((loads_int v.endpc).map fun endpc => LocVar.mk v.varname v.startpc endpc))

end Words

end ProfiLua
