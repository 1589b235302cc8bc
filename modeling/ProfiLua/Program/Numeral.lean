import Mathlib.Data.Nat.Digits.Defs

/-!
Numerals of a fixed width.

`numeral β m x` is the list of the `m` low digits of `x` in base `β`, the most
significant first. Read back (`valueOf`) it is `x` modulo `β ^ m`, so a numeral
says exactly this residue; and a numeral in base `β ^ w` becomes the one in base
`β` when each of its digits is written with `w` digits.
-/

namespace Program

/-- The `m` low digits of `x`, the most significant first. -/
def numeral (β : Nat) : Nat → Nat → List Nat
  | 0, _ => []
  | m + 1, x => numeral β m (x / β) ++ [x % β]

/-- The number a numeral stands for. -/
def valueOf (β : Nat) (ds : List Nat) : Nat := Nat.ofDigits β ds.reverse

variable {β : Nat}

@[simp] theorem numeral_length (m x : Nat) : (numeral β m x).length = m := by
  induction m generalizing x with
  | zero => rfl
  | succ m ih => simp [numeral, ih]

theorem numeral_digit_lt (pos : 0 < β) {m x d : Nat} (mem : d ∈ numeral β m x) : d < β := by
  induction m generalizing x with
  | zero => simp [numeral] at mem
  | succ m ih =>
    simp only [numeral, List.mem_append, List.mem_singleton] at mem
    rcases mem with high | rfl
    · exact ih high
    · exact Nat.mod_lt _ pos

/-- A further digit is worth itself, and moves the others up a place. -/
theorem valueOf_concat (ds : List Nat) (d : Nat) :
    valueOf β (ds ++ [d]) = d + β * valueOf β ds := by
  simp [valueOf, Nat.ofDigits_cons]

/-- A numeral of `m` places is worth the number modulo the power of the base. -/
theorem valueOf_numeral (m x : Nat) : valueOf β (numeral β m x) = x % β ^ m := by
  induction m generalizing x with
  | zero => simp [numeral, valueOf, Nat.mod_one]
  | succ m ih =>
    rw [numeral, valueOf_concat, ih, Nat.pow_succ', Nat.mod_mul]

/-- Each place holds the digit of its power. -/
theorem numeral_eq_map (m x : Nat) :
    numeral β m x = (List.range m).map fun j => x / β ^ (m - 1 - j) % β := by
  induction m generalizing x with
  | zero => rfl
  | succ m ih =>
    rw [numeral, ih, List.range_succ, List.map_append]
    congr 1
    · apply List.map_congr_left
      intro j mem
      have lt := List.mem_range.mp mem
      have next : m + 1 - 1 - j = m - 1 - j + 1 := by omega
      rw [next, Nat.pow_succ', Nat.div_div_eq_div_mul]
    · simp

/-- Two numerals of one width are equal exactly when the numbers agree modulo the
power of the base. -/
theorem numeral_eq_iff {m x y : Nat} : numeral β m x = numeral β m y ↔ x % β ^ m = y % β ^ m := by
  constructor
  · intro same
    rw [← valueOf_numeral, same, valueOf_numeral]
  · intro same
    induction m generalizing x y with
    | zero => rfl
    | succ m ih =>
      rw [Nat.pow_succ', Nat.mod_mul, Nat.mod_mul] at same
      have low : x % β = y % β := by
        have := congrArg (· % β) same
        simpa using this
      have high : x / β % β ^ m = y / β % β ^ m := by
        rw [low] at same
        rcases Nat.eq_zero_or_pos β with rfl | pos
        · simp
        · exact Nat.eq_of_mul_eq_mul_left pos (Nat.add_left_cancel same)
      simp only [numeral]
      rw [ih high, low]

/-- A wider numeral is the numeral of the high part before that of the low one. -/
theorem numeral_add (m k x : Nat) :
    numeral β (m + k) x = numeral β m (x / β ^ k) ++ numeral β k x := by
  induction k generalizing x with
  | zero => simp [numeral]
  | succ k ih =>
    rw [← Nat.add_assoc, numeral, ih, numeral, List.append_assoc, Nat.div_div_eq_div_mul,
      Nat.pow_succ']

/-- The low digits of a number are those of its residue. -/
theorem numeral_mod (m x : Nat) : numeral β m (x % β ^ m) = numeral β m x :=
  numeral_eq_iff.mpr (Nat.mod_mod _ _)

/-- Writing each digit in base `β ^ w` with `w` digits in base `β`. -/
theorem numeral_flatMap (w m x : Nat) :
    (numeral (β ^ w) m x).flatMap (numeral β w) = numeral β (w * m) x := by
  induction m generalizing x with
  | zero => rfl
  | succ m ih =>
    rw [numeral, List.flatMap_append, ih, Nat.mul_succ, numeral_add]
    simp [numeral_mod]

example : numeral 2 4 11 = [1, 0, 1, 1] := rfl

end Program
