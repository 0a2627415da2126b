import GreatEvent.Lib.CString

/-!
# Numbers printed and read back

`printf`'s `%d` of an `int` and `atoi` are inverse to each other: the digits
come off the end one at a time (`digitBytes_eq`), `strtol` builds the number
up from the front.
-/

namespace Lib

/-- The decimal digits of a number. -/
def digitBytes (n : Nat) : List UInt8 := (Nat.toDigits 10 n).map fun c => UInt8.ofNat c.toNat

/-- `%d` -/
def printInt (i : Int) : List UInt8 := if i < 0 then 45 :: digitBytes i.natAbs else digitBytes i.natAbs

theorem digitChar_byte {d : Nat} (small : d < 10) :
    UInt8.ofNat (Nat.digitChar d).toNat = UInt8.ofNat (48 + d) := by
  have all : ∀ d : Fin 10, UInt8.ofNat (Nat.digitChar d).toNat = UInt8.ofNat (48 + d) := by decide
  exact all ⟨d, small⟩

/-- The last digit comes off the end. -/
theorem digitBytes_eq (n : Nat) : digitBytes n =
    (if n < 10 then [] else digitBytes (n / 10)) ++ [UInt8.ofNat (48 + n % 10)] := by
  unfold digitBytes
  rw [Nat.toDigits_eq_if (by decide)]
  split
  · rename_i small
    rw [Nat.mod_eq_of_lt small, List.map_singleton, digitChar_byte small, List.nil_append]
  · rw [List.map_append, List.map_singleton, digitChar_byte (Nat.mod_lt _ (by decide))]

theorem isDigit_ofNat {d : Nat} (small : d < 10) : isDigit (UInt8.ofNat (48 + d)) = true := by
  have all : ∀ d : Fin 10, isDigit (UInt8.ofNat (48 + d)) = true := by decide
  exact all ⟨d, small⟩

theorem toNat_digit {d : Nat} (small : d < 10) : (UInt8.ofNat (48 + d)).toNat - 48 = d := by
  rw [UInt8.toNat_ofNat']
  omega

/-- Nothing but digits is printed. -/
theorem isDigit_of_mem (n : Nat) : ∀ b ∈ digitBytes n, isDigit b = true := by
  induction n using Nat.strongRecOn with
  | ind n ih =>
    intro b member
    rw [digitBytes_eq] at member
    rcases List.mem_append.mp member with before | last
    · split at before
      · cases before
      · exact ih (n / 10) (by omega) b before
    · rw [List.mem_singleton.mp last]
      exact isDigit_ofNat (Nat.mod_lt _ (by decide))

theorem digitBytes_ne_nil (n : Nat) : digitBytes n ≠ [] := by
  rw [digitBytes_eq]
  exact List.append_ne_nil_of_right_ne_nil _ (List.cons_ne_nil _ _)

theorem length_digitBytes_le {n k : Nat} (some : 0 < k) (small : n < 10 ^ k) :
    (digitBytes n).length ≤ k := by
  rw [digitBytes, List.length_map]
  exact (Nat.length_toDigits_le_iff (by decide) some).mpr small

/-- The value of a string of digits. -/
theorem digitsValue_eq {s : List UInt8} (digits : ∀ b ∈ s, isDigit b = true) :
    digitsValue s = s.foldl (fun n b => 10 * n + (b.toNat - 48)) 0 := by
  have all : s.takeWhile isDigit = s := by
    have front : (s ++ []).takeWhile isDigit = s ++ [].takeWhile isDigit :=
      List.takeWhile_append_of_pos digits
    rwa [List.append_nil, List.takeWhile_nil, List.append_nil] at front
  rw [digitsValue, all]

/-- **Digits are read back.** -/
theorem digitsValue_digitBytes (n : Nat) : digitsValue (digitBytes n) = n := by
  induction n using Nat.strongRecOn with
  | ind n ih =>
    have last : n % 10 < 10 := Nat.mod_lt _ (by decide)
    rw [digitsValue_eq (isDigit_of_mem n), digitBytes_eq, List.foldl_append]
    simp only [List.foldl_cons, List.foldl_nil, toNat_digit last]
    split
    · simp only [List.foldl_nil]
      omega
    · rw [← digitsValue_eq (isDigit_of_mem _), ih (n / 10) (by omega)]
      omega

theorem digit_ne {b c : UInt8} (digit : isDigit b = true) (other : isDigit c = false) : b ≠ c := by
  rintro rfl
  rw [digit] at other
  cases other

theorem isSpace_of_isDigit {b : UInt8} (digit : isDigit b = true) : isSpace b = false := by
  have all : ∀ b : UInt8, isDigit b = true → isSpace b = false := by
    intro b
    simp only [isDigit, isSpace, Bool.and_eq_true, decide_eq_true_eq, Bool.or_eq_false_iff,
      decide_eq_false_iff_not, Bool.and_eq_false_iff]
    rintro ⟨low, high⟩
    rw [UInt8.le_iff_toNat_le] at low high
    simp only [UInt8.le_iff_toNat_le, ← UInt8.toNat_inj]
    simp at low high ⊢
    omega
  exact all b digit

/-- `strtol` of an unsigned number. -/
theorem strtol10_digits {s : List UInt8} (digits : ∀ b ∈ s, isDigit b = true) (some : s ≠ []) :
    strtol10 s = min (digitsValue s : Int) (2 ^ 63 - 1) := by
  cases s with
  | nil => exact absurd rfl some
  | cons b bs =>
    have digit := digits b List.mem_cons_self
    have minus : b ≠ 45 := digit_ne digit (by decide)
    have plus : b ≠ 43 := digit_ne digit (by decide)
    rw [strtol10, List.dropWhile_cons_of_neg (by rw [isSpace_of_isDigit digit]; decide)]
    split
    · rename_i same
      exact absurd (List.cons.inj same).1 minus
    · rename_i same
      exact absurd (List.cons.inj same).1 plus
    · rfl

/-- **`atoi` reads back what `%d` has printed** of an `int`. -/
theorem atoi_printInt {i : Int} (low : -2 ^ 31 ≤ i) (high : i < 2 ^ 31) : atoi (printInt i) = i := by
  have value : strtol10 (printInt i) = i := by
    unfold printInt
    split
    · rw [strtol10, List.dropWhile_cons_of_neg (by decide)]
      simp only [digitsValue_digitBytes]
      omega
    · rw [strtol10_digits (isDigit_of_mem _) (digitBytes_ne_nil _), digitsValue_digitBytes]
      omega
  rw [atoi, value, Int.bmod_eq_of_le] <;> omega

/-- What is printed is no quote and no NUL. -/
theorem mem_printInt {i : Int} {b : UInt8} (member : b ∈ printInt i) : b = 45 ∨ isDigit b = true := by
  unfold printInt at member
  split at member
  · rcases List.mem_cons.mp member with rfl | digit
    · exact .inl rfl
    · exact .inr (isDigit_of_mem _ b digit)
  · exact .inr (isDigit_of_mem _ b member)

theorem length_printInt_le {i : Int} (low : -2 ^ 31 ≤ i) (high : i < 2 ^ 31) : (printInt i).length ≤ 11 := by
  have small : i.natAbs < 10 ^ 10 := by omega
  have digits := length_digitBytes_le (by decide) small
  unfold printInt
  split
  · rw [List.length_cons]
    omega
  · omega

end Lib
