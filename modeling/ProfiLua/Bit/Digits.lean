import ProfiLua.Bit.Functions
import ProfiLua.Program.Numeral

/-!
What the digit functions write and what they return.

The loop of both is one numeral: with a count that stays in range it writes
every place of the buffer once, the digit of the lowest power into the last one.
So the texts are numerals in base 2 and 16 (`tobin_expansion`). The buffers hold
them exactly when the count has a sign the function deals with (`within_iff`).
-/

namespace ProfiLua

open Program

/-! ### The loop -/

section Fill

variable {digits : String} {mask shift : UBits} {i : SBits} {b : UBits}

/-- A count that is not positive fills nothing. The least `int` is left out: the
loop counts down before it tests, and would wrap there. -/
theorem fill_of_nonpos (low : -2 ^ 31 < i.toInt) (nonpos : i.toInt ≤ 0) :
    fill digits mask shift i b = [] := by
  have next := toInt_pred low
  rw [fill, if_neg]
  intro more
  have pos := toInt_nonneg_iff.mp more
  omega

/-- A positive count writes the last place and goes on with the others. -/
theorem fill_of_pos (pos : 0 < i.toInt) :
    fill digits mask shift i b =
      (i - 1, charAt digits (b &&& mask)) :: fill digits mask shift (i - 1) (b >>> shift) := by
  have next := toInt_pred (i := i) (by omega)
  rw [fill, if_pos]
  exact toInt_nonneg_iff.mpr (by omega)

/-- The writes stay below the count. -/
theorem fill_within {k : Nat} (count : i.toInt = k) :
    ∀ w ∈ fill digits mask shift i b, 0 ≤ w.1.toInt ∧ w.1.toInt < k := by
  induction k generalizing i b with
  | zero =>
    rw [fill_of_nonpos (by omega) (by omega)]
    intro w mem
    cases mem
  | succ k ih =>
    have next := toInt_pred (i := i) (by omega)
    rw [fill_of_pos (by omega)]
    intro w mem
    rcases List.mem_cons.mp mem with rfl | later
    · simp only
      omega
    · have inside := ih (i := i - 1) (by omega) w later
      omega

namespace Digits

/-- A later write to the same place wins. -/
theorem byteAt_cons (w : SBits × UChar) (ws : List (SBits × UChar)) (n : SBits) (j : Nat) :
    (Digits.mk (w :: ws) n).byteAt j =
      ((Digits.mk ws n).byteAt j).or (if w.1.toInt = (j : Int) then some w.2 else none) := by
  simp only [byteAt, List.reverse_cons, List.find?_append]
  cases ws.reverse.find? fun v => v.1.toInt = (j : Int) with
  | some v => rfl
  | none =>
    by_cases here : w.1.toInt = (j : Int)
    · simp [here]
    · simp [here]

/-- A place that no round wrote has no character. -/
theorem byteAt_none {ws : List (SBits × UChar)} {n : SBits} {j : Nat}
    (other : ∀ w ∈ ws, w.1.toInt ≠ (j : Int)) : (Digits.mk ws n).byteAt j = none := by
  have missing : ws.reverse.find? (fun w => w.1.toInt = (j : Int)) = none := by
    rw [List.find?_eq_none]
    intro w mem
    simpa using other w (List.mem_reverse.mp mem)
  rw [byteAt, missing]
  rfl

end Digits

/-- The mask and the shift take the last digit in this base off a number. -/
structure Radix (β : Nat) (mask shift : UBits) : Prop where
  mask : ∀ b : UBits, (b &&& mask).toNat = b.toNat % β
  shift : ∀ b : UBits, (b >>> shift).toNat = b.toNat / β

/-- `tohex` takes four bits a round. -/
theorem radix_hex : Radix 16 15 4 where
  mask b := by
    rw [UInt32.toNat_and]
    exact Nat.and_two_pow_sub_one_eq_mod _ 4
  shift b := by
    rw [UInt32.toNat_shiftRight]
    exact Nat.shiftRight_eq_div_pow _ 4

theorem radix_bin : Radix 2 1 1 where
  mask b := by
    rw [UInt32.toNat_and]
    exact Nat.and_two_pow_sub_one_eq_mod _ 1
  shift b := by
    rw [UInt32.toNat_shiftRight]
    exact Nat.shiftRight_eq_div_pow _ 1

/-- The character of a digit. -/
def digitChar (digits : String) (d : Nat) : UChar := (lit digits).getD d 0

variable {β : Nat}

/-- Every place holds the digit of its power. -/
theorem byteAt_fill (radix : Radix β mask shift) {n : SBits} {k j : Nat} (count : i.toInt = k)
    (inside : j < k) :
    (Digits.mk (fill digits mask shift i b) n).byteAt j =
      some (digitChar digits (b.toNat / β ^ (k - 1 - j) % β)) := by
  induction k generalizing i b with
  | zero => omega
  | succ k ih =>
    have next := toInt_pred (i := i) (by omega)
    have count' : (i - 1).toInt = k := by omega
    rw [fill_of_pos (by omega), Digits.byteAt_cons]
    rcases Nat.lt_or_eq_of_le (Nat.le_of_lt_succ inside) with before | rfl
    · have power : k + 1 - 1 - j = k - 1 - j + 1 := by omega
      rw [ih count' before, radix.shift, Nat.div_div_eq_div_mul, power, Nat.pow_succ']
      rfl
    · have free : (Digits.mk (fill digits mask shift (i - 1) (b >>> shift)) n).byteAt j = none := by
        apply Digits.byteAt_none
        intro w mem
        have below := fill_within count' w mem
        omega
      rw [free, if_pos count']
      simp [charAt, digitChar, radix.mask]

theorem mapM_some {α γ : Type} {f : α → Option γ} {g : α → γ} {l : List α}
    (each : ∀ a ∈ l, f a = some (g a)) : l.mapM f = some (l.map g) := by
  induction l with
  | nil => rfl
  | cons a l ih =>
    have rest := ih fun x mem => each x (List.mem_cons_of_mem a mem)
    rw [List.mapM_cons, each a List.mem_cons_self, rest]
    rfl

theorem toUInt32_toNat_of_count {n : SBits} {k : Nat} (count : n.toInt = k) :
    n.toUInt32.toNat = k := by
  have nonneg : 0 ≤ n := toInt_nonneg_iff.mpr (by omega)
  rw [Int32.toNat_toUInt32_of_le nonneg, ← Int32.toNat_toInt, count]
  rfl

/-- A text of that length stays in the buffer, for no digit is written behind
it. -/
theorem within_fill {k size : Nat} (count : i.toInt = k) (room : k ≤ size) :
    (Digits.mk (fill digits mask shift i b) i).Within size where
  writes w mem := by
    have below := fill_within count w mem
    omega
  length := by
    rw [Digits.length, toUInt32_toNat_of_count count]
    exact room

/-- The text is the numeral of the low digits: as many as are asked for, with
zeros in front. -/
theorem text_fill (radix : Radix β mask shift) {k size : Nat} (count : i.toInt = k)
    (room : k ≤ size) :
    (Digits.mk (fill digits mask shift i b) i).text size =
      some ((numeral β k b.toNat).map (digitChar digits)) := by
  rw [Digits.text, if_pos (within_fill count room), Digits.length, toUInt32_toNat_of_count count,
    numeral_eq_map, List.map_map]
  apply mapM_some
  intro j mem
  exact byteAt_fill radix count (List.mem_range.mp mem)

end Fill

/-! ### The counts -/

/-- A negative count is a length beyond every buffer, as it is passed on as a
`size_t`. -/
theorem length_of_neg {n : SBits} (neg : n < 0) : 2 ^ 31 ≤ n.toUInt32.toNat := by
  have below : n.toInt < 0 := by
    have := Int32.lt_iff_toInt_lt.mp neg
    rwa [Int32.toInt_zero] at this
  have same : n.toUInt32.toNat = n.toBitVec.toNat := rfl
  have cases' := BitVec.toInt_eq_toNat_cond n.toBitVec
  have value : n.toInt = n.toBitVec.toInt := rfl
  split at cases' <;> omega

/-- The count is cut down to the digits that there can be. -/
theorem toInt_clamp {n : SBits} (top : Nat) (small : top < 2 ^ 31) (nonneg : 0 ≤ n) :
    (if Int32.ofNat top < n then Int32.ofNat top else n).toInt = (min n.toInt.toNat top : Nat) := by
  have value : (Int32.ofNat top).toInt = top := Int32.toInt_ofNat_of_lt small
  have pos := toInt_nonneg_iff.mp nonneg
  split
  · rename_i above
    have above' := Int32.lt_iff_toInt_lt.mp above
    omega
  · rename_i below
    have below' := mt Int32.lt_iff_toInt_lt.mpr below
    omega

/-- Negating a count that has a negation. The least `int` has none. -/
theorem toInt_negate {n : SBits} (ne : n ≠ Int32.minValue) : (-n).toInt = -n.toInt := by
  have low := n.le_toInt
  have high := n.toInt_lt
  have ne' : n.toInt ≠ -2 ^ 31 := by
    intro same
    exact ne (Int32.toInt_inj.mp same)
  rw [Int32.toInt_neg]
  apply Int.bmod_eq_of_le <;> omega

/-- The number of digits a count asks for. -/
def digitsOf (n : SBits) (top : Nat) : Nat := min n.toInt.natAbs top

/-- The text of `tobin`: the last digits of the binary numeral, as many as are asked
for. -/
theorem tobin_text (b : UBits) {n : SBits} (nonneg : 0 ≤ n) :
    (tobin b n).text 32 =
      some ((numeral 2 (digitsOf n 32) b.toNat).map (digitChar "01")) := by
  have pos := toInt_nonneg_iff.mp nonneg
  have count := toInt_clamp 32 (by decide) nonneg
  have same : min n.toInt.toNat 32 = digitsOf n 32 := by
    unfold digitsOf
    omega
  rw [same] at count
  exact text_fill radix_bin count (by unfold digitsOf; omega)

/-- A negative count asks for as many digits, with the letters in upper case. -/
theorem tohex_text_of_neg (b : UBits) {n : SBits} (neg : n < 0) (ne : n ≠ Int32.minValue) :
    (tohex b n).text 8 =
      some ((numeral 16 (digitsOf n 8) b.toNat).map (digitChar "0123456789ABCDEF")) := by
  have below := Int32.lt_iff_toInt_lt.mp neg
  rw [Int32.toInt_zero] at below
  have negated := toInt_negate ne
  have nonneg : 0 ≤ -n := toInt_nonneg_iff.mpr (by omega)
  have count := toInt_clamp 8 (by decide) nonneg
  have same : min (-n).toInt.toNat 8 = digitsOf n 8 := by
    unfold digitsOf
    omega
  rw [same] at count
  simp only [tohex, if_pos neg]
  exact text_fill radix_hex count (by unfold digitsOf; omega)

/-- The same for `tohex`, with the letters in lower case. -/
theorem tohex_text (b : UBits) {n : SBits} (nonneg : 0 ≤ n) :
    (tohex b n).text 8 =
      some ((numeral 16 (digitsOf n 8) b.toNat).map (digitChar "0123456789abcdef")) := by
  have pos := toInt_nonneg_iff.mp nonneg
  have count := toInt_clamp 8 (by decide) nonneg
  have same : min n.toInt.toNat 8 = digitsOf n 8 := by
    unfold digitsOf
    omega
  have notNeg : ¬n < 0 := by
    intro neg
    have below := Int32.lt_iff_toInt_lt.mp neg
    rw [Int32.toInt_zero] at below
    omega
  rw [same] at count
  simp only [tohex, if_neg notNeg]
  exact text_fill radix_hex count (by unfold digitsOf; omega)

/-- A text that could be read off the buffer was written inside it. -/
theorem within_of_text {size : Nat} {d : Digits} {s : Bytes} (text : d.text size = some s) :
    d.Within size := by
  by_contra outside
  rw [Digits.text, if_neg outside] at text
  cases text

/-! ### The buffers -/

/-- `tobin` stays in its buffer exactly when the count is not negative, and
`tohex` exactly when the count has a negation. -/
theorem within_iff (b : UBits) (n : SBits) :
    ((tobin b n).Within 32 ↔ 0 ≤ n) ∧ ((tohex b n).Within 8 ↔ n ≠ Int32.minValue) := by
  constructor
  · constructor
    · intro within
      by_contra notNonneg
      have neg : n < 0 := Int32.not_le.mp notNonneg
      have long := length_of_neg neg
      have unclamped : ¬32 < n := by
        intro above
        exact notNonneg (Int32.le_of_lt (Int32.lt_trans (by decide) above))
      have length := within.length
      simp only [tobin, Digits.length, if_neg unclamped] at length
      omega
    · intro nonneg
      exact within_of_text (tobin_text b nonneg)
  · constructor
    · rintro within rfl
      have unchanged : (tohex b Int32.minValue).n = Int32.minValue := rfl
      have length := within.length
      rw [Digits.length, unchanged] at length
      have long := length_of_neg (n := Int32.minValue) (by decide)
      omega
    · intro ne
      rcases Int32.le_or_lt 0 n with nonneg | neg
      · exact within_of_text (tohex_text b nonneg)
      · exact within_of_text (tohex_text_of_neg b neg ne)

/-- A script that asks for -1 binary digits: the length is 4294967295. -/
theorem negativeCount_outside : ¬((tobin 1 (-1)).Within 32 ∧ (tohex 1 (-1)).Within 8) := by
  rintro ⟨within, -⟩
  have length := within.length
  revert length
  decide

/-! ### Calls -/

section Calls

variable {σ ω : Type} (E : LibEnv σ)

/-- Every 32-bit value is the argument of some call. -/
theorem bits_ofNat (b : UBits) : (TValue.number (.ofNat b.toNat)).bits E = b :=
  luaNumber2integer_ofNat E.casts b

variable {func v : TValue} {args : List TValue} {heap : Heap σ} {w : ω} {idx : Nat}

/-- The argument of a bit function, as 32 bits. A string that is a numeral will
do. -/
theorem run_barg (pos : 1 ≤ idx) (arg : args[idx - 1]? = some v)
    (number : v.isnumber E.toCLib = true) :
    barg E idx ⟨frame func args, heap⟩ = .ok (v.bits E) ⟨frame func args, heap⟩ := by
  unfold barg
  rw [run_bind_ok (run_valueAt (index2adr_arg pos arg)), if_neg (by simp [number])]
  rfl

theorem run_luaIsnone :
    luaIsnone idx ⟨frame func args, heap⟩ =
      .ok (decide (args.length < idx)) ⟨frame func args, heap⟩ := by
  unfold luaIsnone
  rw [run_bind_ok (run_get _)]
  simp [LuaState.gettop, frame]

/-- The arguments of a call that asks for `n` digits of `b`; further ones are not
looked at. -/
inductive Asks (E : LibEnv σ) (default : SBits) (b : UBits) (n : SBits) : List TValue → Prop
  | alone {v : TValue} (number : v.isnumber E.toCLib = true) (value : v.bits E = b)
      (count : n = default) : Asks E default b n [v]
  | counted {v c : TValue} {rest : List TValue} (number : v.isnumber E.toCLib = true)
      (value : v.bits E = b) (number' : c.isnumber E.toCLib = true)
      (count : (c.bits E).toInt32 = n) : Asks E default b n (v :: c :: rest)

variable {E} {default n : SBits} {b : UBits}

theorem run_value (asks : Asks E default b n args) :
    barg E 1 ⟨frame func args, heap⟩ = .ok b ⟨frame func args, heap⟩ := by
  cases asks with
  | alone number value count => exact value ▸ run_barg E (by decide) rfl number
  | counted number value number' count => exact value ▸ run_barg E (by decide) rfl number

/-- The number of digits that is asked for, or the default if there is no second
argument. -/
theorem run_digitCount (asks : Asks E default b n args) :
    digitCount E default ⟨frame func args, heap⟩ = .ok n ⟨frame func args, heap⟩ := by
  unfold digitCount
  rw [run_bind_ok run_luaIsnone]
  cases asks with
  | alone number value count => exact count ▸ rfl
  | @counted v c rest number value number' count =>
    have second : barg E 2 ⟨frame func (v :: c :: rest), heap⟩ =
        .ok (c.bits E) ⟨frame func (v :: c :: rest), heap⟩ := run_barg E (by decide) rfl number'
    have more : decide ((v :: c :: rest).length < 2) = false := by simp
    rw [more]
    exact ok_bind second (count ▸ rfl)

theorem run_luaPushlstring {size : Nat} {d : Digits} {s : Bytes} (text : d.text size = some s)
    (l : LuaState σ) :
    luaPushlstring size d ⟨l, w⟩ = .ok ⟨⟩ ⟨⟨.string s :: l.stack, l.heap⟩, w⟩ := by
  unfold luaPushlstring
  rw [text]
  rfl

/-- Every call that asks for `n` digits of `b` returns this string. -/
def GivesDigits (E : LibEnv σ) (body : LibM σ ω Int) (default : SBits) (b : UBits) (n : SBits)
    (s : Bytes) : Prop :=
  ∀ (func : TValue) (args : List TValue) (heap : Heap σ) (w : ω), Asks E default b n args →
    luaDPrecall body ⟨⟨frame func args, heap⟩, w⟩ =
      .ok (some [.string s]) ⟨⟨.string s :: frame func args, heap⟩, w⟩

/-- Both functions read their arguments, fill the buffer and push its text,
which is their one result. -/
theorem gives_text {f : UBits → SBits → Digits} {size : Nat} {s : Bytes}
    (text : (f b n).text size = some s) :
    GivesDigits E (do
      let b ← onLua (barg E 1)
      let n ← onLua (digitCount E default)
      luaPushlstring size (f b n)
      return 1 : LibM σ ω Int) default b n s := by
  intro func args heap w asks
  apply run_luaDPrecall
  exact ok_bind (run_onLua (run_value asks))
    (ok_bind (run_onLua (run_digitCount asks)) (ok_bind (run_luaPushlstring text _) rfl))

theorem bitTobin_gives {s : Bytes} (text : (tobin b n).text 32 = some s) :
    GivesDigits E (bitTobin E : LibM σ ω Int) 8 b n s :=
  gives_text text

theorem bitTohex_gives {s : Bytes} (text : (tohex b n).text 8 = some s) :
    GivesDigits E (bitTohex E : LibM σ ω Int) 2 b n s :=
  gives_text text

end Calls

/-! ### The expansion -/

/-- A text of zeros and ones as a binary numeral. -/
def binaryValue (s : Bytes) : Nat := valueOf 2 (s.map fun c => (lit "01").idxOf c)

/-- The four binary digits of a hexadecimal one. -/
def fourBits (c : UChar) : Bytes :=
  (numeral 2 4 ((lit "0123456789abcdef").idxOf c)).map (digitChar "01")

example : fourBits 98 = lit "1011" := by decide

/-- Each of the two digits can be read back from its character. -/
theorem idxOf_binDigit {d : Nat} (lt : d < 2) : (lit "01").idxOf (digitChar "01" d) = d := by
  revert d
  decide

/-- Each digit can be read back from its character. -/
theorem idxOf_hexDigit {d : Nat} (lt : d < 16) :
    (lit "0123456789abcdef").idxOf (digitChar "0123456789abcdef" d) = d := by
  revert d
  decide

theorem binDigit_cases {d : Nat} (lt : d < 2) :
    digitChar "01" d = 48 ∨ digitChar "01" d = 49 := by
  revert d
  decide

/-- The characters of a binary numeral stand for its digits. -/
theorem map_idxOf_numeral (m x : Nat) :
    ((numeral 2 m x).map (digitChar "01")).map (fun c => (lit "01").idxOf c) = numeral 2 m x := by
  have each : ∀ d ∈ numeral 2 m x, ((fun c => (lit "01").idxOf c) ∘ digitChar "01") d = id d := by
    intro d mem
    exact idxOf_binDigit (numeral_digit_lt (by decide) mem)
  rw [List.map_map, List.map_congr_left each, List.map_id]

/-- A numeral of `m` places is worth the number modulo `2 ^ m`. -/
theorem binaryValue_numeral (m x : Nat) :
    binaryValue ((numeral 2 m x).map (digitChar "01")) = x % 2 ^ m := by
  rw [binaryValue, map_idxOf_numeral, valueOf_numeral]

/-- So two numbers share it exactly if they are equal modulo `2 ^ m`. -/
theorem binText_inj {m x y : Nat} :
    (numeral 2 m x).map (digitChar "01") = (numeral 2 m y).map (digitChar "01") ↔
      x % 2 ^ m = y % 2 ^ m := by
  rw [← numeral_eq_iff]
  constructor
  · intro same
    rw [← map_idxOf_numeral m x, same, map_idxOf_numeral]
  · intro same
    rw [same]

/-- One hexadecimal digit is worth four binary ones, so the digits of a number
can be replaced one by one. -/
theorem flatMap_fourBits (m x : Nat) :
    ((numeral 16 m x).map (digitChar "0123456789abcdef")).flatMap fourBits =
      (numeral 2 (4 * m) x).map (digitChar "01") := by
  rw [← numeral_flatMap 4 m x, List.flatMap_map, List.map_flatMap]
  apply List.flatMap_congr
  intro d mem
  rw [fourBits, idxOf_hexDigit (numeral_digit_lt (by decide) mem)]

/-- The number of binary digits for a number of hexadecimal ones. -/
theorem digitsOf_four {n : SBits} (nonneg : 0 ≤ n) :
    digitsOf (Int32.ofNat (4 * min n.toInt.toNat 8)) 32 = 4 * digitsOf n 8 := by
  have pos := toInt_nonneg_iff.mp nonneg
  have value : (Int32.ofNat (4 * min n.toInt.toNat 8)).toInt = (4 * min n.toInt.toNat 8 : Nat) :=
    Int32.toInt_ofNat_of_lt (by omega)
  unfold digitsOf
  omega

/-- With a count that is not negative, `tobin` returns the low digits of the binary
expansion, and the digits `tohex` returns stand for the same bits. -/
theorem tobin_expansion {σ ω : Type} (E : LibEnv σ) {n : SBits} (nonneg : 0 ≤ n) :
    ∃ bin hex : UBits → Bytes, ∀ b : UBits,
      GivesDigits E (bitTobin E : LibM σ ω Int) 8 b n (bin b) ∧
      GivesDigits E (bitTohex E : LibM σ ω Int) 2 b n (hex b) ∧
      (∀ c ∈ bin b, c = 48 ∨ c = 49) ∧
      (bin b).length = min n.toInt.toNat 32 ∧
      binaryValue (bin b) = b.toNat % 2 ^ min n.toInt.toNat 32 ∧
      (∀ b' : UBits, bin b = bin b' ↔
        b.toNat % 2 ^ min n.toInt.toNat 32 = b'.toNat % 2 ^ min n.toInt.toNat 32) ∧
      GivesDigits E (bitTobin E : LibM σ ω Int) 8 b (Int32.ofNat (4 * min n.toInt.toNat 8))
        ((hex b).flatMap fourBits) := by
  have pos := toInt_nonneg_iff.mp nonneg
  have width : digitsOf n 32 = min n.toInt.toNat 32 := by
    unfold digitsOf
    omega
  let bin (b : UBits) : Bytes := (numeral 2 (digitsOf n 32) b.toNat).map (digitChar "01")
  let hex (b : UBits) : Bytes :=
    (numeral 16 (digitsOf n 8) b.toNat).map (digitChar "0123456789abcdef")
  refine ⟨bin, hex, fun b => ⟨?_, ?_, ?_, ?_, ?_, ?_, ?_⟩⟩
  · exact bitTobin_gives (tobin_text b nonneg)
  · exact bitTohex_gives (tohex_text b nonneg)
  · intro c mem
    obtain ⟨d, digit, rfl⟩ := List.mem_map.mp mem
    exact binDigit_cases (numeral_digit_lt (by decide) digit)
  · rw [List.length_map, numeral_length, width]
  · rw [binaryValue_numeral, width]
  · intro b'
    rw [← width]
    exact binText_inj
  · have nonneg' : 0 ≤ Int32.ofNat (4 * min n.toInt.toNat 8) := by
      rw [toInt_nonneg_iff, Int32.toInt_ofNat_of_lt (by omega)]
      omega
    have text := tobin_text b nonneg'
    rw [digitsOf_four nonneg, ← flatMap_fourBits] at text
    exact bitTobin_gives text

/-- Four digits of either kind: one nibble in binary, and the sixteen low bits
in hexadecimal. -/
theorem tobin_expansion_nibble :
    ∃ bin hex : UBits → Bytes, ∀ b : UBits,
      GivesDigits quietEnv (bitTobin quietEnv : LibM Unit Unit Int) 8 b 4 (bin b) ∧
      GivesDigits quietEnv (bitTohex quietEnv : LibM Unit Unit Int) 2 b 4 (hex b) ∧
      (∀ c ∈ bin b, c = 48 ∨ c = 49) ∧
      (bin b).length = 4 ∧
      binaryValue (bin b) = b.toNat % 16 ∧
      (∀ b' : UBits, bin b = bin b' ↔ b.toNat % 16 = b'.toNat % 16) ∧
      GivesDigits quietEnv (bitTobin quietEnv : LibM Unit Unit Int) 8 b 16
        ((hex b).flatMap fourBits) :=
  tobin_expansion quietEnv (by decide)

end ProfiLua
